/-! The headers that are always at hand.

A header is a text of the language that declares functions, variables and types of a library. It is read
when one of its names is used without having been declared, or when it is included by name. -/
namespace Offside

structure Header where
  name : String
  lines : List String
  /-- Functions and variables that the header declares. -/
  names : List String
  types : List String
  deriving DecidableEq, Repr

namespace Header

/-- The text of the header. -/
def source (h : Header) : String :=
  String.join (h.lines.map fun line => line ++ "\n")

def stdio : Header where
  name := "stdio.h"
  lines :=
    ["ifndef _STDIO_H",
     "define _STDIO_H",
     "",
     "struct FILE: pass",
     "",
     "stdin: FILE[]",
     "stdout: FILE[]",
     "stderr: FILE[]",
     "",
     "def printf(format: char[], ...) -> int",
     "def fprintf(stream: FILE[], format: char[], ...) -> int",
     "def fscanf(stream: FILE[], format: char[], ...) -> int",
     "def fputs(text: char[], stream: FILE[]) -> int",
     "def puts(text: char[]) -> int",
     "def putchar(c: int) -> int",
     "def getchar() -> int",
     "",
     "endif"]
  names :=
    ["stdin", "stdout", "stderr", "printf", "fprintf", "fscanf", "fputs", "puts", "putchar",
     "getchar"]
  types := ["FILE"]

def stdlib : Header where
  name := "stdlib.h"
  lines :=
    ["ifndef _STDLIB_H",
     "define _STDLIB_H",
     "",
     "typedef uint size_t",
     "",
     "def malloc(size: size_t) -> void[]",
     "def calloc(count: size_t, size: size_t) -> void[]",
     "def realloc(ptr: void[], size: size_t) -> void[]",
     "def free(ptr: void[]) -> void",
     "def exit(status: int) -> void",
     "def atoi(text: char[]) -> int",
     "def abs(n: int) -> int",
     "",
     "endif"]
  names := ["malloc", "calloc", "realloc", "free", "exit", "atoi", "abs"]
  types := ["size_t"]

def assert : Header where
  name := "assert.h"
  lines :=
    ["ifndef _ASSERT_H",
     "define _ASSERT_H",
     "",
     "def assert(expr: int) -> void",
     "",
     "endif"]
  names := ["assert"]
  types := []

def string : Header where
  name := "string.h"
  lines :=
    ["ifndef _STRING_H",
     "define _STRING_H",
     "",
     "include \"stdlib.h\"",
     "",
     "def strlen(text: char[]) -> size_t",
     "def strcpy(dest: char[], src: char[]) -> char[]",
     "def strncpy(dest: char[], src: char[], n: size_t) -> char[]",
     "def strcmp(a: char[], b: char[]) -> int",
     "def memcpy(dest: void[], src: void[], n: size_t) -> void[]",
     "def memset(dest: void[], c: int, n: size_t) -> void[]",
     "",
     "endif"]
  names := ["strlen", "strcpy", "strncpy", "strcmp", "memcpy", "memset"]
  types := []

def standard : List Header := [stdio, stdlib, assert, string]

/-- The header of a name. -/
def named? (headers : List Header) (name : String) : Option Header :=
  headers.find? fun h => h.name == name

/-- The header that declares a function or variable. -/
def ofVariable? (headers : List Header) (name : String) : Option Header :=
  headers.find? fun h => h.names.contains name

/-- The header that declares a type. -/
def ofType? (headers : List Header) (name : String) : Option Header :=
  headers.find? fun h => h.types.contains name

end Header

end Offside
