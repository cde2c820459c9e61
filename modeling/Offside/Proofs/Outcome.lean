/-! What programs with a state and failures give.

`Ensures pre p post` says that whenever `p` succeeds from a state with `pre`, its answer and the state it
leaves satisfy `post`. It follows the shape of a program: `Ensures.bind` takes a sequence apart, and the
other rules close its ends. `Yields` is about answers only, and `Ends` about how a program ends: its
failure, if there is one, and the state behind it. -/
namespace Offside

universe u

variable {ε σ : Type u} {α β : Type u}

theorem run_bind_ok {p : EStateM ε σ α} {f : α → EStateM ε σ β} {s s' : σ} {b : β} :
    (p >>= f).run s = .ok b s' ↔ ∃ a t, p.run s = .ok a t ∧ (f a).run t = .ok b s' := by
  rw [EStateM.run_bind]
  constructor
  · intro h
    split at h
    · rename_i a t hp
      exact ⟨a, t, hp, h⟩
    · cases h
  · rintro ⟨a, t, hp, hf⟩
    rw [hp]
    exact hf

theorem run_bind_error {p : EStateM ε σ α} {f : α → EStateM ε σ β} {s s' : σ} {e : ε}
    (h : (p >>= f).run s = .error e s') :
    p.run s = .error e s' ∨ ∃ a t, p.run s = .ok a t ∧ (f a).run t = .error e s' := by
  rw [EStateM.run_bind] at h
  split at h
  · rename_i a t hp
    exact .inr ⟨a, t, hp, h⟩
  · rename_i e' t hp
    cases h
    exact .inl hp

/-- A test of what is given, which a failure does not pass. -/
theorem exists_ok_of_any {e : Except ε α} {test : α → Bool} (h : e.toOption.any test = true) :
    ∃ a, e = .ok a ∧ test a = true := by
  cases e with
  | ok a => exact ⟨a, rfl, h⟩
  | error f => cases h

/-- What `p` gives from a state with `pre`, if it gives anything, satisfies `post`. -/
def Ensures (pre : σ → Prop) (p : EStateM ε σ α) (post : α → σ → Prop) : Prop :=
  ∀ s a s', pre s → p.run s = .ok a s' → post a s'

namespace Ensures

variable {pre : σ → Prop} {p : EStateM ε σ α} {f : α → EStateM ε σ β} {mid : α → σ → Prop} {post : β → σ → Prop}

theorem bind (hp : Ensures pre p mid) (hf : ∀ a, Ensures (mid a) (f a) post) : Ensures pre (p >>= f) post := by
  intro s b s' hs h
  obtain ⟨a, t, ha, hb⟩ := run_bind_ok.mp h
  exact hf a t b s' (hp s a t hs ha) hb

theorem pure {b : β} (h : ∀ s, pre s → post b s) : Ensures pre (Pure.pure b : EStateM ε σ β) post := by
  intro s a s' hs he
  cases he
  exact h _ hs

theorem throw {e : ε} : Ensures pre (MonadExcept.throw e : EStateM ε σ β) post := by
  intro s a s' _ he
  cases he

theorem get {mid : σ → σ → Prop} (h : ∀ s, pre s → mid s s) : Ensures pre (MonadState.get : EStateM ε σ σ) mid := by
  intro s a s' hs he
  cases he
  exact h _ hs

theorem weaken {q : EStateM ε σ β} {stronger : β → σ → Prop} {weaker : σ → Prop}
    (h : Ensures weaker q stronger) (hpre : ∀ s, pre s → weaker s)
    (hpost : ∀ b s, stronger b s → post b s) : Ensures pre q post :=
  fun s b s' hs he => hpost b s' (h s b s' (hpre s hs) he)

end Ensures

/-- What `p` gives from any state, if it gives anything, satisfies `post`. -/
def Yields (p : EStateM ε σ α) (post : α → Prop) : Prop := Ensures (fun _ => True) p fun a _ => post a

namespace Yields

variable {p : EStateM ε σ α} {f : α → EStateM ε σ β} {mid : α → Prop} {post : β → Prop}

theorem any : Yields p fun _ => True := fun _ _ _ _ _ => trivial

theorem bind (hp : Yields p mid) (hf : ∀ a, mid a → Yields (f a) post) : Yields (p >>= f) post :=
  Ensures.bind hp fun a s b s' ha h => hf a ha s b s' trivial h

/-- Where it does not matter what came before. -/
theorem after (hf : ∀ a, Yields (f a) post) : Yields (p >>= f) post := any.bind fun a _ => hf a

theorem pure {b : β} (h : post b) : Yields (Pure.pure b : EStateM ε σ β) post := Ensures.pure fun _ _ => h

theorem throw {e : ε} : Yields (MonadExcept.throw e : EStateM ε σ β) post := Ensures.throw

end Yields

/-- The state that `p` leaves behind, however it ends. -/
def stateAfter (p : EStateM ε σ α) (s : σ) : σ := match p.run s with
  | .ok _ s' | .error _ s' => s'

theorem stateAfter_ok {p : EStateM ε σ α} {s s' : σ} {a : α} (h : p.run s = .ok a s') : stateAfter p s = s' := by
  rw [stateAfter, h]

/-- The failure that `p` ends with, if it does. -/
def failureAfter (p : EStateM ε σ α) (s : σ) : Option ε := match p.run s with
  | .ok _ _ => none
  | .error e _ => some e

/-- From `s`, `p` ends in one of the ways that `T` allows: `T s failure s'` is about a program that begins
in `s` and ends in `s'`, with the failure if there is one. -/
def EndsFrom (T : σ → Option ε → σ → Prop) (p : EStateM ε σ α) (s : σ) : Prop :=
  T s (failureAfter p s) (stateAfter p s)

def Ends (T : σ → Option ε → σ → Prop) (p : EStateM ε σ α) : Prop := ∀ s, EndsFrom T p s

/-- A relation between states, whether or not there is a failure. -/
abbrev Always (R : σ → σ → Prop) : σ → Option ε → σ → Prop := fun s _ s' => R s s'

theorem EndsFrom.ok {T : σ → Option ε → σ → Prop} {p : EStateM ε σ α} {s s' : σ} {a : α}
    (h : EndsFrom T p s) (hrun : p.run s = .ok a s') : T s none s' := by
  rw [EndsFrom, failureAfter, stateAfter, hrun] at h
  exact h

theorem EndsFrom.error {T : σ → Option ε → σ → Prop} {p : EStateM ε σ α} {s s' : σ} {e : ε}
    (h : EndsFrom T p s) (hrun : p.run s = .error e s') : T s (some e) s' := by
  rw [EndsFrom, failureAfter, stateAfter, hrun] at h
  exact h

theorem Ends.ok {T : σ → Option ε → σ → Prop} {p : EStateM ε σ α} {s s' : σ} {a : α}
    (h : Ends T p) (hrun : p.run s = .ok a s') : T s none s' :=
  (h s).ok hrun

theorem Ends.error {T : σ → Option ε → σ → Prop} {p : EStateM ε σ α} {s s' : σ} {e : ε}
    (h : Ends T p) (hrun : p.run s = .error e s') : T s (some e) s' :=
  (h s).error hrun

theorem EndsFrom.congr {T : σ → Option ε → σ → Prop} {p q : EStateM ε σ α} {s : σ}
    (h : EndsFrom T q s) (hrun : p.run s = q.run s) : EndsFrom T p s := by
  unfold EndsFrom failureAfter stateAfter at h ⊢
  rw [hrun]
  exact h

theorem endsFrom_of_run {T : σ → Option ε → σ → Prop} {p : EStateM ε σ α} {s : σ}
    (hok : ∀ a s', p.run s = .ok a s' → T s none s')
    (herror : ∀ e s', p.run s = .error e s' → T s (some e) s') : EndsFrom T p s := by
  rw [EndsFrom, failureAfter, stateAfter]
  cases hrun : p.run s with
  | ok a s' => exact hok a s' hrun
  | error e s' => exact herror e s' hrun

end Offside
