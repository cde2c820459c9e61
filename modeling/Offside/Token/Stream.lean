import Offside.Token.Layout
import Offside.Token.Scanner

/-! The tokens of a text as the grammar sees them.

A stream is the list of tokens with blocks made explicit, up to the end of the file or to the first
fault of the characters or of the layout. -/
namespace Offside

structure TokenStream where
  file : String
  tokens : List Token
  /-- What cut the list short. -/
  failure : Option Failure

namespace TokenStream

/-- Scans and lays out what is left of a text, at most `fuel` raw tokens. -/
def collect : Nat → Scanner → Layout → List Token × Option Failure
  | 0, _, _ => ([], none)
  | fuel + 1, scanner, layout =>
    match scanner.next with
    | (.error failure, _) => ([], some failure)
    | (.ok t, scanner) =>
      let (_, step, layout) := layout.push t
      match step.failure with
      | some failure => ([], some failure)
      | none =>
        if t.kind = .endOfFile then (step.out, none)
        else
          let (more, failure) := collect fuel scanner layout
          (step.out ++ more, failure)

def ofText (file text : String) : TokenStream :=
  let scanner := Scanner.ofText file text
  let (tokens, failure) := collect (scanner.rest.length + 1) scanner {}
  ⟨file, tokens, failure⟩

/-- All tokens of a text without fault. -/
def toList (s : TokenStream) : Except Failure (List Token) :=
  match s.failure with
  | some failure => .error failure
  | none => .ok s.tokens

/-- What pulling the stream to its end yields, in order. -/
def items (s : TokenStream) : List (Except Failure Token) :=
  s.tokens.map .ok ++ s.failure.toList.map .error

end TokenStream

end Offside
