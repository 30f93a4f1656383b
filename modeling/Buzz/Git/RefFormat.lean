import Mathlib.Data.List.Basic
import Mathlib.Data.List.Infix

namespace Buzz.Git

/-- The characters that `git check-ref-format` forbids. -/
def badRefChar (c : Char) : Bool :=
  c.toNat < 32 || c = '\x7f' || [' ', '~', '^', ':', '?', '*', '[', '\\'].contains c

def validComponent (component : List Char) : Bool :=
  !component.isEmpty && component.head? != some '.' && !".lock".toList.isSuffixOf component

def checkRefnameFormat (name : List Char) : Bool :=
  2 ≤ (name.splitOn '/').length && (name.splitOn '/').all validComponent &&
    name.all (!badRefChar ·) && !decide ("..".toList <:+: name) &&
    !decide ("@\x7b".toList <:+: name) && name.getLast? != some '.'

theorem badRefChar_of_check {name : List Char} (h : checkRefnameFormat name = true) {c : Char}
    (hc : c ∈ name) : badRefChar c = false := by
  simp only [checkRefnameFormat, Bool.and_eq_true, List.all_eq_true] at h
  simpa using h.1.1.1.2 c hc

end Buzz.Git
