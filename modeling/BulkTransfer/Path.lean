import BulkTransfer.Text.Utf8

/-!
# Paths

An absolute path is the list of its components.  The text of a path is read with `resolve`, which
drops empty components and dots and lets two dots cancel the component before them, starting at a
working directory unless the text starts with a slash.
-/

namespace BulkTransfer

/-- An absolute path, as its components from the root. -/
abbrev Path := List Text

namespace Path

def dot : Text := "."

/-- The component that goes up. -/
def dots : Text := ".."

/-! ## Reading -/

/-- One component further. -/
def step (path : Path) (name : Text) : Path :=
  if name = [] ∨ name = dot then path
  else if name = dots then path.dropLast
  else path ++ [name]

/-- The path that relative text leads to. -/
def join (base : Path) (t : Text) : Path := (Text.split Text.slash t).foldl step base

def isAbsolute (t : Text) : Bool := t.head? == some Text.slash

/-- The path that text stands for in a working directory. -/
def resolve (cwd : Path) (t : Text) : Path := join (if isAbsolute t then [] else cwd) t

/-! ## Writing -/

def text (path : Path) : Text := Text.slash :: Text.joinWith [Text.slash] path

/-- What is left of two paths after their common start. -/
def afterCommon : Path → Path → Path × Path
  | a :: p, b :: q => if a = b then afterCommon p q else (a :: p, b :: q)
  | p, q => (p, q)

/-- The text that leads from one path to another. -/
def relative (source target : Path) : Text :=
  let (up, down) := afterCommon source target
  Text.joinWith [Text.slash] (up.map (fun _ => dots) ++ down)

/-- The text of the directory that holds an entry: all before its last component, a dot when there
is no slash. -/
def parentText (t : Text) : Text :=
  let body := Text.dropRightWhile (· == Text.slash) t
  match Text.dropRightWhile (· != Text.slash) body with
  | [] => if isAbsolute t then [Text.slash] else dot
  | [_] => [Text.slash]
  | u :: rest => (u :: rest).dropLast

/-! ## Containment -/

/-- A path that does not lie inside the directory it should lie in. -/
structure Escape where
  base : Text
  candidate : Text

def Escape.message (e : Escape) : Text :=
  "Path '" ++ e.candidate ++ "' resolves outside directory '" ++ e.base ++ "'"

/-- Whether relative text leads out of its start or stays there. -/
def leadsOut (t : Text) : Bool :=
  t.isEmpty || t == dots || (dots ++ [Text.slash]).isPrefixOf t || isAbsolute t

/-- Checks that text resolves strictly inside a directory. -/
def escape? (cwd : Path) (base candidate : Text) : Option Escape :=
  if leadsOut (relative (resolve cwd base) (resolve cwd candidate)) then some ⟨base, candidate⟩
  else none

end Path

end BulkTransfer
