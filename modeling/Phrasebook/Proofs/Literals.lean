import Phrasebook.Proofs.Splitting

/-!
# Literal text

A text without placeholders may still hold braces. Names that can stand in a
placeholder leave such a text alone, whatever their values are. Any other name, an
empty one or one with a brace in it, has a token as well, and a value is written over
this token although no scan sees it (`fill_empty_name`). Where no such token occurs,
and only there, the text stays as it is for all values (`fill_literal_iff`).
-/

namespace Phrasebook

-- ---------------------------------------------------------------------------
-- What one replacement does to a text
-- ---------------------------------------------------------------------------

theorem replaceFirst_of_not_infix (h : ¬ old <:+: s) : replaceFirst old new s = s := by
  induction s with
  | nil => rfl
  | cons c s ih =>
    have hstart : ¬ old <+: c :: s := fun hc => h hc.isInfix
    rw [replaceFirst_cons hstart, ih fun hs => h (List.infix_cons hs)]

theorem exists_replaceFirst (h : old <:+: s) (hne : old ≠ []) :
    ∃ a b, s = a ++ (old ++ b) ∧ ∀ new, replaceFirst old new s = a ++ (new ++ b) := by
  induction s with
  | nil => exact absurd (List.eq_nil_of_infix_nil h) hne
  | cons c s ih =>
    by_cases hstart : old <+: c :: s
    · obtain ⟨b, hb⟩ := hstart
      exact ⟨[], b, hb.symm, fun new => by rw [← hb, replaceFirst_append hne]; rfl⟩
    · obtain ⟨a, b, hs, hreplace⟩ := ih ((List.infix_cons_iff.mp h).resolve_left hstart)
      refine ⟨c :: a, b, by simp [hs], fun new => ?_⟩
      rw [replaceFirst_cons hstart, hreplace new]
      rfl

theorem replaceFirst_self (hne : old ≠ []) (s : List Char) : replaceFirst old old s = s := by
  by_cases h : old <:+: s
  · obtain ⟨a, b, hs, hreplace⟩ := exists_replaceFirst h hne
    rw [hreplace, ← hs]
  · exact replaceFirst_of_not_infix h

theorem token_ne_nil (name : List Char) : token name ≠ [] := by simp [token]

theorem replaceFirst_token_nil_ne (h : token name <:+: s) : replaceFirst (token name) [] s ≠ s := by
  obtain ⟨a, b, hs, hreplace⟩ := exists_replaceFirst h (token_ne_nil name)
  intro heq
  have hlength := congrArg List.length (hs.symm.trans (heq.symm.trans (hreplace [])))
  simp [token] at hlength
  omega

-- ---------------------------------------------------------------------------
-- Arguments that take away one token
-- ---------------------------------------------------------------------------

/-- A value for each name of a list: no text at all for one of them, its own token for any
other. -/
def erasingEntries (name : String) (names : List String) : List (String × Value) :=
  names.map fun other =>
    (other, .string (if other = name then "" else String.ofList (token other.toList)))

theorem map_fst_erasingEntries (name : String) (names : List String) :
    (erasingEntries name names).map Prod.fst = names := by
  simp [erasingEntries, Function.comp_def]

def Arguments.erasing (arguments : Arguments) (name : String) : Arguments where
  entries := erasingEntries name arguments.names
  distinct := by
    rw [map_fst_erasingEntries]
    exact arguments.distinct

theorem Arguments.names_erasing (arguments : Arguments) (name : String) :
    (arguments.erasing name).names = arguments.names :=
  map_fst_erasingEntries name arguments.names

theorem fillOne_own_token (name : String) (s : List Char) :
    Template.fillOne s (name, .string (String.ofList (token name.toList))) = s := by
  simp [Template.fillOne, Value.text, replaceFirst_self (token_ne_nil _)]

theorem foldl_erasingEntries_of_notMem {names : List String} (h : name ∉ names) (s : List Char) :
    (erasingEntries name names).foldl Template.fillOne s = s := by
  induction names with
  | nil => rfl
  | cons other names ih =>
    simp only [List.mem_cons, not_or] at h
    simpa [erasingEntries, Ne.symm h.1, fillOne_own_token] using ih h.2

theorem foldl_erasingEntries {names : List String} (hd : names.Nodup) (h : name ∈ names)
    (s : List Char) :
    (erasingEntries name names).foldl Template.fillOne s =
      replaceFirst (token name.toList) [] s := by
  induction names with
  | nil => cases h
  | cons other names ih =>
    obtain ⟨hfresh, hd⟩ := List.nodup_cons.mp hd
    by_cases heq : other = name
    · subst heq
      have hrest := foldl_erasingEntries_of_notMem hfresh (replaceFirst (token other.toList) [] s)
      simpa [erasingEntries, Template.fillOne, Value.text] using hrest
    · have hmem : name ∈ names := (List.mem_cons.mp h).resolve_left (Ne.symm heq)
      simpa [erasingEntries, heq, fillOne_own_token] using ih hd hmem

-- ---------------------------------------------------------------------------
-- Templates
-- ---------------------------------------------------------------------------

namespace Template

variable {t : Template} {arguments : Arguments} {name : String}

theorem foldl_fillOne_of_not_infix {entries : List (String × Value)}
    (h : ∀ entry ∈ entries, ¬ token entry.1.toList <:+: s) : entries.foldl fillOne s = s := by
  induction entries with
  | nil => rfl
  | cons entry entries ih =>
    obtain ⟨hentry, hrest⟩ := List.forall_mem_cons.mp h
    rw [List.foldl_cons, fillOne, replaceFirst_of_not_infix hentry, ih hrest]

theorem fill_of_not_infix
    (h : ∀ name ∈ arguments.names, ¬ token name.toList <:+: t.source.toList) :
    t.fill arguments = t.source := by
  have hentries : ∀ entry ∈ arguments.entries, ¬ token entry.1.toList <:+: t.source.toList :=
    fun entry hentry => h entry.1 (List.mem_map_of_mem hentry)
  rw [fill, foldl_fillOne_of_not_infix hentries, String.ofList_toList]

theorem not_infix_of_isName (h : t.placeholders = []) (hname : IsName name.toList) :
    ¬ token name.toList <:+: t.source.toList := by
  rw [← Segment.mem_scan_iff hname]
  exact mt mem_placeholders.mpr (h ▸ List.not_mem_nil)

theorem fill_erasing (hmem : name ∈ arguments.names) :
    t.fill (arguments.erasing name) =
      String.ofList (replaceFirst (token name.toList) [] t.source.toList) :=
  congrArg String.ofList (foldl_erasingEntries arguments.distinct hmem t.source.toList)

/-- A text without placeholders stays as it is for all values of some arguments if and only if
none of their names, empty or with a brace in it, has its token in the text. -/
theorem fill_literal_iff (h : t.placeholders = []) :
    (∀ other : Arguments, other.names = arguments.names → t.fill other = t.source) ↔
      ∀ name ∈ arguments.names, IsName name.toList ∨ ¬ token name.toList <:+: t.source.toList := by
  constructor
  · intro hall name hmem
    -- Values that bring every other token back leave the text short of this one.
    refine .inr fun hinfix => ?_
    have hsame := congrArg String.toList (hall _ (arguments.names_erasing name))
    rw [fill_erasing hmem, String.toList_ofList] at hsame
    exact replaceFirst_token_nil_ne hinfix hsame
  · intro hnames other hother
    refine fill_of_not_infix fun name hmem => ?_
    rcases hnames name (hother ▸ hmem) with hname | habsent
    · exact not_infix_of_isName h hname
    · exact habsent

theorem fill_literal_braces :
    let t : Template := ⟨"\x7b\x7d\x7ba\x7b\x7d\x7d\x7b"⟩
    let arguments : Arguments := .ofList [("\x7b", .bool true), ("a", .string "\x7ba\x7d")]
    t.placeholders = [] ∧
      (∀ name ∈ arguments.names,
        IsName name.toList ∨ ¬ token name.toList <:+: t.source.toList) ∧
      t.fill arguments = t.source := by
  intro t arguments
  have h : t.placeholders = [] := by decide +kernel
  have hnames : ∀ name ∈ arguments.names,
      IsName name.toList ∨ ¬ token name.toList <:+: t.source.toList := by decide +kernel
  exact ⟨h, hnames, (fill_literal_iff h).mpr hnames arguments rfl⟩

/-- Two braces with nothing between them are no placeholder, and yet the argument without a
name is written over them. -/
theorem fill_empty_name :
    ¬ ∀ (t : Template) (arguments : Arguments),
      t.placeholders = [] → t.fill arguments = t.source := by
  intro h
  have hfill : (Template.mk "\x7b\x7d").fill (.ofList [("", .string "x")]) = "x" := by
    decide +kernel
  have hsame := h ⟨"\x7b\x7d"⟩ (.ofList [("", .string "x")]) (by decide +kernel)
  exact absurd (hfill.symm.trans hsame) (by decide)

end Template

end Phrasebook
