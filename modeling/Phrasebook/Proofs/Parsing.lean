import Phrasebook.Proofs.Positions

/-!
# Placeholders by parsing

A parser that takes a placeholder where it can and a single character elsewhere,
as often as possible, is put together from combinators of which only their laws
are known (`Combinators.Lawful`). It comes to the end of every text and finds
there what a scan finds (`Combinators.segments_eq`), so nothing is ever left to
be said about a text that it fails on.
-/

namespace Phrasebook

-- ---------------------------------------------------------------------------
-- Parsers
-- ---------------------------------------------------------------------------

namespace Parsing

inductive Attempt (α : Type)
  | found (a : α)
  /-- Something else may be tried. -/
  | refused
  /-- Nothing else is tried. -/
  | failed

abbrev Parser (α : Type) := List Char → Attempt α × List Char

structure Combinators where
  char : Char → Parser Char
  any : Parser Char
  takeWhile : (Char → Bool) → Parser (List Char)
  map : {α β : Type} → (α → β) → Parser α → Parser β
  delimited : {α β γ : Type} → Parser α → Parser β → Parser γ → Parser β
  orElse : {α : Type} → Parser α → Parser α → Parser α
  many : {α : Type} → Parser α → Parser (List α)

/-- What can be relied on. Where a parser stands after it has refused a text is left open, except
that an alternative and the end of a repetition start from where the refused parser started. -/
structure Combinators.Lawful (C : Combinators) : Prop where
  char_found (c : Char) (s : List Char) : C.char c (c :: s) = (.found c, s)
  char_refused {c : Char} {s : List Char} (h : s.head? ≠ some c) : (C.char c s).1 = .refused
  any_found (c : Char) (s : List Char) : C.any (c :: s) = (.found c, s)
  any_refused : (C.any []).1 = .refused
  takeWhile_found {p : Char → Bool} {s : List Char} (h : s.takeWhile p ≠ []) :
    C.takeWhile p s = (.found (s.takeWhile p), s.dropWhile p)
  takeWhile_refused {p : Char → Bool} {s : List Char} (h : s.takeWhile p = []) :
    (C.takeWhile p s).1 = .refused
  map_found {α β : Type} {f : α → β} {p : Parser α} {s rest : List Char} {a : α}
    (h : p s = (.found a, rest)) : C.map f p s = (.found (f a), rest)
  map_refused {α β : Type} {f : α → β} {p : Parser α} {s : List Char}
    (h : (p s).1 = .refused) : (C.map f p s).1 = .refused
  delimited_found {α β γ : Type} {p : Parser α} {q : Parser β} {r : Parser γ}
    {s s₁ s₂ s₃ : List Char} {a : α} {b : β} {c : γ} (hp : p s = (.found a, s₁))
    (hq : q s₁ = (.found b, s₂)) (hr : r s₂ = (.found c, s₃)) :
    C.delimited p q r s = (.found b, s₃)
  delimited_refused_left {α β γ : Type} {p : Parser α} {q : Parser β} {r : Parser γ}
    {s : List Char} (hp : (p s).1 = .refused) : (C.delimited p q r s).1 = .refused
  delimited_refused_mid {α β γ : Type} {p : Parser α} {q : Parser β} {r : Parser γ}
    {s s₁ : List Char} {a : α} (hp : p s = (.found a, s₁)) (hq : (q s₁).1 = .refused) :
    (C.delimited p q r s).1 = .refused
  delimited_refused_right {α β γ : Type} {p : Parser α} {q : Parser β} {r : Parser γ}
    {s s₁ s₂ : List Char} {a : α} {b : β} (hp : p s = (.found a, s₁))
    (hq : q s₁ = (.found b, s₂)) (hr : (r s₂).1 = .refused) :
    (C.delimited p q r s).1 = .refused
  orElse_left {α : Type} {p q : Parser α} {s rest : List Char} {a : α}
    (h : p s = (.found a, rest)) : C.orElse p q s = (.found a, rest)
  orElse_right {α : Type} {p q : Parser α} {s rest : List Char} {a : α}
    (hp : (p s).1 = .refused) (hq : q s = (.found a, rest)) :
    C.orElse p q s = (.found a, rest)
  orElse_refused {α : Type} {p q : Parser α} {s : List Char}
    (hp : (p s).1 = .refused) (hq : (q s).1 = .refused) : (C.orElse p q s).1 = .refused
  many_end {α : Type} {p : Parser α} {s : List Char} (h : (p s).1 = .refused) :
    C.many p s = (.found [], s)
  many_more {α : Type} {p : Parser α} {s rest left : List Char} {a : α} {as : List α}
    (h : p s = (.found a, rest)) (hlt : rest.length < s.length)
    (hrest : C.many p rest = (.found as, left)) : C.many p s = (.found (a :: as), left)

namespace Combinators

variable (C : Combinators)

def placeholder : Parser (List Char) :=
  C.delimited (C.char '{') (C.takeWhile isNameChar) (C.char '}')

def segment : Parser (Option (List Char)) :=
  C.orElse (C.map some C.placeholder) (C.map (fun _ => none) C.any)

def segments : Parser (List (Option (List Char))) := C.many C.segment

def names (s : List Char) : List (List Char) :=
  match (C.segments s).1 with
  | .found segments => segments.filterMap id
  | .refused | .failed => []

variable {C : Combinators} (hC : C.Lawful)
include hC

theorem placeholder_found (h : Segment.opening? s = some (name, rest)) :
    C.placeholder s = (.found name, rest) := by
  obtain ⟨hname, rfl⟩ := Segment.opening?_eq_some_iff.mp h
  have htake : (name ++ '}' :: rest).takeWhile isNameChar ≠ [] := by
    rw [hname.2.takeWhile_close]
    exact hname.1
  have hmid := hC.takeWhile_found htake
  rw [hname.2.takeWhile_close, hname.2.dropWhile_close] at hmid
  have hopen := hC.char_found '{' (name ++ '}' :: rest)
  rw [token, List.cons_append, List.append_assoc]
  exact hC.delimited_found hopen hmid (hC.char_found '}' rest)

theorem placeholder_refused (h : Segment.opening? s = none) : (C.placeholder s).1 = .refused := by
  by_cases hopen : s.head? = some '{'
  · obtain ⟨s, rfl⟩ := List.head?_eq_some_iff.mp hopen
    have hleft := hC.char_found '{' s
    by_cases hname : s.takeWhile isNameChar = []
    · exact hC.delimited_refused_mid hleft (hC.takeWhile_refused hname)
    · refine hC.delimited_refused_right hleft (hC.takeWhile_found hname) (hC.char_refused ?_)
      intro hclose
      simp [Segment.opening?, Segment.closed?, hname, hclose] at h
  · exact hC.delimited_refused_left (hC.char_refused hopen)

theorem segment_placeholder (h : Segment.opening? s = some (name, rest)) :
    C.segment s = (.found (some name), rest) :=
  hC.orElse_left (hC.map_found (placeholder_found hC h))

theorem segment_literal (h : Segment.opening? (c :: s) = none) :
    C.segment (c :: s) = (.found none, s) :=
  hC.orElse_right (hC.map_refused (placeholder_refused hC h)) (hC.map_found (hC.any_found c s))

theorem segment_nil : (C.segment []).1 = .refused :=
  hC.orElse_refused (hC.map_refused (placeholder_refused hC rfl)) (hC.map_refused hC.any_refused)

theorem segments_eq (s : List Char) :
    C.segments s = (.found ((Segment.scan s).map Segment.name?), []) := by
  induction s using Segment.scan_induction with
  | nil =>
    rw [segments, hC.many_end (segment_nil hC), Segment.scan, List.map_nil]
  | token name rest hname ih =>
    have hopen : Segment.opening? (token name ++ rest) = some (name, rest) :=
      Segment.opening?_eq_some_iff.mpr ⟨hname, rfl⟩
    rw [Segment.scan_token_append hname, List.map_cons]
    exact hC.many_more (segment_placeholder hC hopen) (Segment.opening?_shorter hopen) ih
  | literal c rest hc ih =>
    rw [Segment.scan_cons hc, List.map_cons]
    exact hC.many_more (segment_literal hC hc) (Nat.lt_succ_self _) ih

theorem names_eq (s : List Char) : C.names s = named s := by
  rw [names, segments_eq hC]
  simp only [List.filterMap_map]
  exact names_scan s

end Combinators

-- ---------------------------------------------------------------------------
-- Combinators of that kind
-- ---------------------------------------------------------------------------

def one (accepts : Char → Bool) : Parser Char
  | [] => (.refused, [])
  | c :: s => if accepts c then (.found c, s) else (.refused, c :: s)

def oneOrMore (accepts : Char → Bool) : Parser (List Char) := fun s =>
  if s.takeWhile accepts = [] then (.refused, s)
  else (.found (s.takeWhile accepts), s.dropWhile accepts)

def andThen (p : Parser α) (f : α → Parser β) : Parser β := fun s =>
  match p s with
  | (.found a, rest) => f a rest
  | (.refused, rest) => (.refused, rest)
  | (.failed, rest) => (.failed, rest)

def either (p q : Parser α) : Parser α := fun s =>
  match p s with
  | (.refused, _) => q s
  | attempt => attempt

/-- A parser that finds something without moving on would be repeated forever, which fails. -/
def zeroOrMore (p : Parser α) (s : List Char) : Attempt (List α) × List Char :=
  match p s with
  | (.found a, rest) =>
    if rest.length < s.length then
      match zeroOrMore p rest with
      | (.found as, left) => (.found (a :: as), left)
      | (_, left) => (.failed, left)
    else (.failed, rest)
  | (.refused, _) => (.found [], s)
  | (.failed, rest) => (.failed, rest)
termination_by s.length
decreasing_by assumption

def Combinators.plain : Combinators where
  char c := one (· == c)
  any := one fun _ => true
  takeWhile := oneOrMore
  map f p := andThen p fun a rest => (.found (f a), rest)
  delimited p q r := andThen p fun _ => andThen q fun b => andThen r fun _ rest => (.found b, rest)
  orElse := either
  many := zeroOrMore

section

variable {p : Parser α} {s rest : List Char} {a : α}

theorem eq_refused (h : (p s).1 = .refused) : ∃ rest, p s = (.refused, rest) :=
  ⟨(p s).2, Prod.ext h rfl⟩

theorem andThen_found (h : p s = (.found a, rest)) (f : α → Parser β) :
    andThen p f s = f a rest := by
  simp only [andThen, h]

theorem andThen_refused (h : (p s).1 = .refused) (f : α → Parser β) :
    (andThen p f s).1 = .refused := by
  obtain ⟨rest, hp⟩ := eq_refused h
  simp only [andThen, hp]

theorem either_right (h : (p s).1 = .refused) (q : Parser α) : either p q s = q s := by
  obtain ⟨rest, hp⟩ := eq_refused h
  simp only [either, hp]

end

theorem Combinators.plain_lawful : Combinators.plain.Lawful where
  char_found c s := by simp [plain, one]
  char_refused {c s} h := by
    cases s with
    | nil => rfl
    | cons d s =>
      have hne : d ≠ c := fun heq => h (congrArg some heq)
      simp [plain, one, hne]
  any_found c s := rfl
  any_refused := rfl
  takeWhile_found h := if_neg h
  takeWhile_refused h := by simp [plain, oneOrMore, h]
  map_found h := andThen_found h _
  map_refused h := andThen_refused h _
  delimited_found hp hq hr := by
    simp only [plain]
    rw [andThen_found hp, andThen_found hq, andThen_found hr]
  delimited_refused_left hp := andThen_refused hp _
  delimited_refused_mid hp hq := by
    simp only [plain]
    rw [andThen_found hp]
    exact andThen_refused hq _
  delimited_refused_right hp hq hr := by
    simp only [plain]
    rw [andThen_found hp, andThen_found hq]
    exact andThen_refused hr _
  orElse_left h := by simp only [plain, either, h]
  orElse_right hp hq := (either_right hp _).trans hq
  orElse_refused hp hq := (congrArg Prod.fst (either_right hp _)).trans hq
  many_end h := by
    obtain ⟨rest, hp⟩ := eq_refused h
    simp only [plain]
    rw [zeroOrMore, hp]
  many_more h hlt hrest := by
    simp only [plain] at hrest ⊢
    rw [zeroOrMore, h]
    simp only [hlt, if_true, hrest]

end Parsing

/-- The placeholders of a template are the pieces between two braces with no brace between them. A
parser that takes a placeholder or a single character finds them all, comes to the end of every
template and never fails. -/
theorem Template.placeholders_eq_between (C : Parsing.Combinators) (hC : C.Lawful) (t : Template) :
    let s := t.source.toList
    t.placeholders = (spans s).map (fun span => String.ofList (between s span.1 span.2)) ∧
      (spans s).Pairwise (fun a b => a.1 < b.1) ∧ (∀ i j, (i, j) ∈ spans s ↔ Spans s i j) ∧
      t.placeholders = (C.names s).map String.ofList ∧
      ∃ segments, C.segments s = (.found segments, []) := by
  intro s
  have hnames : t.placeholders = (named s).map String.ofList := by
    rw [placeholders, Template.segments, ← List.map_filterMap, names_scan]
  refine ⟨?_, pairwise_spans s, fun i j => mem_spans, ?_, _, Parsing.Combinators.segments_eq hC s⟩
  · rw [hnames, named, List.map_map]
    rfl
  · rw [hnames, Parsing.Combinators.names_eq hC]

theorem Template.placeholders_eq_between_nested :
    let t : Template := ⟨"\x7bto \x7bname\x7d \x7b\x7d \x7dand \x7ba\x7bb\x7d\x7d"⟩
    let s := t.source.toList
    let C := Parsing.Combinators.plain
    C.Lawful ∧ t.placeholders = ["name", "b"] ∧ (4, 9) ∈ spans s ∧ (19, 23) ∉ spans s ∧
      (C.names s).map String.ofList = ["name", "b"] ∧
      ∃ segments, C.segments s = (.found segments, []) := by
  intro t s C
  obtain ⟨hplaceholders, -, hspans, hnames, hsegments⟩ :=
    placeholders_eq_between C Parsing.Combinators.plain_lawful t
  have hfound : t.placeholders = ["name", "b"] := by
    rw [hplaceholders]
    decide +kernel
  refine ⟨Parsing.Combinators.plain_lawful, hfound, ?_, ?_, hnames ▸ hfound, hsegments⟩
  · rw [hspans]
    decide +kernel
  · rw [hspans]
    decide +kernel

end Phrasebook
