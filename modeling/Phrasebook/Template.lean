import Phrasebook.Arguments

/-!
# Templates

A template is text in which `{name}` stands for an argument. A name is one or
more characters other than braces. There are no escapes: a brace that does not
belong to a complete placeholder is literal text.

Scanning cuts the text into segments and loses nothing (`Segment.text_scan`).
Filling goes through the arguments in their order and gives each of them the
first place in the text that names it, as the text then stands.
-/

namespace Phrasebook

def isNameChar (c : Char) : Bool := c != '{' && c != '}'

def token (name : List Char) : List Char := '{' :: (name ++ ['}'])

inductive Segment
  | literal (c : Char)
  | placeholder (name : List Char)
  deriving DecidableEq

namespace Segment

def text : Segment → List Char
  | .literal c => [c]
  | .placeholder name => token name

def name? : Segment → Option (List Char)
  | .literal _ => none
  | .placeholder name => some name

/-- The name that stands before the next brace, if that closes it, and the text after it. -/
def closed? (s : List Char) : Option (List Char × List Char) :=
  let name := s.takeWhile isNameChar
  let after := s.dropWhile isNameChar
  if name ≠ [] ∧ after.head? = some '}' then some (name, after.tail) else none

def opening? : List Char → Option (List Char × List Char)
  | [] => none
  | c :: rest => if c = '{' then closed? rest else none

theorem opening?_eq_some {s name after : List Char} (h : opening? s = some (name, after)) :
    name ≠ [] ∧ (∀ c ∈ name, isNameChar c) ∧ s = token name ++ after := by
  cases s with
  | nil => simp [opening?] at h
  | cons c rest =>
    simp only [opening?, closed?, Option.ite_none_right_eq_some, Option.some.injEq,
      Prod.mk.injEq] at h
    obtain ⟨rfl, ⟨nonempty, close⟩, rfl, rfl⟩ := h
    refine ⟨nonempty, List.all_eq_true.mp List.all_takeWhile, ?_⟩
    obtain ⟨after, close⟩ := List.head?_eq_some_iff.mp close
    have split := List.takeWhile_append_dropWhile (p := isNameChar) (l := rest)
    rw [close] at split ⊢
    simpa [token] using split.symm

theorem opening?_shorter {s name after : List Char} (h : opening? s = some (name, after)) :
    after.length < s.length := by
  obtain ⟨_, _, rfl⟩ := opening?_eq_some h
  simp [token]
  omega

def scan : List Char → List Segment
  | [] => []
  | c :: rest =>
    match h : opening? (c :: rest) with
    | some (name, after) =>
      have := opening?_shorter h
      .placeholder name :: scan after
    | none => .literal c :: scan rest
termination_by s => s.length
decreasing_by
  · assumption
  · exact Nat.lt_succ_self _

theorem text_scan (s : List Char) : (scan s).flatMap text = s := by
  fun_induction scan s with
  | case1 => rfl
  | case2 c rest name after h _ ih =>
    rw [List.flatMap_cons, ih, text, ← (opening?_eq_some h).2.2]
  | case3 c rest h ih => rw [List.flatMap_cons, ih, text, List.singleton_append]

end Segment

structure Template where
  source : String
  deriving DecidableEq, Inhabited

/-- Writes `new` over the first occurrence of `old`, which has at least one character. -/
def replaceFirst (old new : List Char) : List Char → List Char
  | [] => []
  | c :: rest =>
    if old.isPrefixOf (c :: rest) then new ++ (c :: rest).drop old.length
    else c :: replaceFirst old new rest

namespace Template

def segments (t : Template) : List Segment := Segment.scan t.source.toList

def placeholders (t : Template) : List String :=
  t.segments.filterMap fun s => s.name?.map String.ofList

def fillOne (text : List Char) (argument : String × Value) : List Char :=
  replaceFirst (token argument.1.toList) argument.2.text.toList text

/-- The text with each argument, in order, written over the first place that names it. -/
def fill (t : Template) (arguments : Arguments) : String :=
  String.ofList (arguments.entries.foldl fillOne t.source.toList)

end Template

end Phrasebook
