import Phrasebook.Proofs.Plain

/-!
# Scanning

A scan takes a placeholder wherever one begins (`scan_token_append`) and one
character elsewhere; `scan_induction` follows these two steps. A text in which
every opening brace opens a placeholder leaves no such brace to the literal
characters (`opened_iff`); the same holds of closing braces
(`close_notMem_scan`). Segments of which one of the two is true are read back
from their text (`scan_flatMap_text`).
-/

namespace Phrasebook

/-- Every opening brace opens a complete placeholder. -/
def Opened (s : List Char) : Prop :=
  ∀ after, '{' :: after <:+ s → ∃ name rest, IsName name ∧ after = name ++ '}' :: rest

/-- Every closing brace closes a complete placeholder. -/
def Closed (s : List Char) : Prop :=
  ∀ before, before ++ ['}'] <+: s → ∃ front name, IsName name ∧ before = front ++ '{' :: name

def Template.Opened (t : Template) : Prop := Phrasebook.Opened t.source.toList

def Template.Closed (t : Template) : Prop := Phrasebook.Closed t.source.toList

namespace Segment

variable {segment : Segment} {segments : List Segment}

-- ---------------------------------------------------------------------------
-- The steps of a scan
-- ---------------------------------------------------------------------------

theorem closed?_name (h : IsName name) : closed? (name ++ '}' :: rest) = some (name, rest) := by
  simp [closed?, h.2.takeWhile_close, h.2.dropWhile_close, h.1]

theorem opening?_name (h : IsName name) :
    opening? ('{' :: (name ++ '}' :: rest)) = some (name, rest) := by
  simp [opening?, closed?_name h]

theorem opening?_eq_some_iff :
    opening? s = some (name, after) ↔ IsName name ∧ s = token name ++ after := by
  constructor
  · intro h
    obtain ⟨hne, hplain, hs⟩ := opening?_eq_some h
    exact ⟨⟨hne, hplain⟩, hs⟩
  · rintro ⟨h, rfl⟩
    simpa [token] using opening?_name h

theorem not_begins_of_opening? (h : IsName name) (hc : opening? s = none) :
    ¬ token name <+: s := by
  rintro ⟨after, hs⟩
  rw [opening?_eq_some_iff.mpr ⟨h, hs.symm⟩] at hc
  cases hc

theorem scan_token_append (h : IsName name) :
    scan (token name ++ rest) = .placeholder name :: scan rest := by
  have ho : opening? (token name ++ rest) = some (name, rest) := opening?_eq_some_iff.mpr ⟨h, rfl⟩
  simp only [token, List.cons_append] at ho ⊢
  rw [scan]
  split
  · rename_i hs
    cases ho.symm.trans hs
    rfl
  · rename_i hs
    cases ho.symm.trans hs

theorem scan_cons (h : opening? (c :: rest) = none) :
    scan (c :: rest) = .literal c :: scan rest := by
  rw [scan]
  split
  · rename_i hs
    cases h.symm.trans hs
  · rfl

@[elab_as_elim]
theorem scan_induction {motive : List Char → Prop} (s : List Char) (nil : motive [])
    (token : ∀ name rest, IsName name → motive rest → motive (token name ++ rest))
    (literal : ∀ c rest, opening? (c :: rest) = none → motive rest → motive (c :: rest)) :
    motive s := by
  fun_induction scan s with
  | case1 => exact nil
  | case2 c rest name after h _ ih =>
    obtain ⟨hname, hs⟩ := opening?_eq_some_iff.mp h
    exact hs ▸ token name after hname ih
  | case3 c rest h ih => exact literal c rest h ih

theorem isName_of_mem_scan (h : .placeholder name ∈ scan s) : IsName name := by
  induction s using scan_induction with
  | nil => simp [scan] at h
  | token other rest hother ih =>
    rw [scan_token_append hother, List.mem_cons] at h
    rcases h with h | h
    · cases h; exact hother
    · exact ih h
  | literal c rest hc ih =>
    rw [scan_cons hc, List.mem_cons] at h
    rcases h with h | h
    · cases h
    · exact ih h

-- ---------------------------------------------------------------------------
-- Braces that belong to placeholders
-- ---------------------------------------------------------------------------

theorem opened_cons :
    Opened (c :: s) ↔
      (c = '{' → ∃ name rest, IsName name ∧ s = name ++ '}' :: rest) ∧ Opened s := by
  constructor
  · intro h
    refine ⟨?_, fun after ha => h after (List.suffix_cons_iff.mpr (.inr ha))⟩
    rintro rfl
    exact h s (List.suffix_refl _)
  · rintro ⟨hc, hs⟩ after ha
    rcases List.suffix_cons_iff.mp ha with ha | ha
    · cases ha; exact hc rfl
    · exact hs after ha

theorem opened_append (h : '{' ∉ s) : Opened (s ++ t) ↔ Opened t := by
  induction s with
  | nil => rfl
  | cons c s ih =>
    rw [List.mem_cons, not_or] at h
    rw [List.cons_append, opened_cons, ih h.2]
    exact and_iff_right fun hc => (h.1 hc.symm).elim

theorem opened_token_append (h : IsName name) : Opened (token name ++ s) ↔ Opened s := by
  have hopen : '{' ∉ name ++ ['}'] := by simpa using h.2.open_notMem
  rw [token, List.cons_append, opened_cons, opened_append hopen]
  exact and_iff_right fun _ => ⟨name, s, h, by simp⟩

theorem opened_iff : Opened s ↔ .literal '{' ∉ scan s := by
  induction s using scan_induction with
  | nil => simp [Opened, scan]
  | token name rest hname ih => simp [opened_token_append hname, scan_token_append hname, ih]
  | literal c rest hc ih =>
    rw [opened_cons, scan_cons hc, List.mem_cons, not_or, ih]
    refine and_congr_left fun _ => ⟨?_, fun hne hopen => (hne (by rw [hopen])).elim⟩
    intro hopen h
    cases h
    obtain ⟨name, after, hname, rfl⟩ := hopen rfl
    cases (opening?_name hname).symm.trans hc

instance (s : List Char) : Decidable (Opened s) := decidable_of_iff _ opened_iff.symm

instance (t : Template) : Decidable t.Opened :=
  inferInstanceAs (Decidable (Phrasebook.Opened t.source.toList))

/-- No brace that stands open at the end of `front` is the beginning of a placeholder that
`s` completes. -/
def Abandoned (front s : List Char) : Prop :=
  ∀ f name, Plain name → front = f ++ '{' :: name → opening? ('{' :: (name ++ s)) = none

theorem snoc_eq_append_cons {c d : Char} (h : front ++ [c] = f ++ d :: name) :
    name = [] ∧ c = d ∨ ∃ init, name = init ++ [c] ∧ front = f ++ d :: init := by
  rcases List.eq_nil_or_concat name with rfl | ⟨init, last, rfl⟩
  · obtain ⟨-, hlast⟩ := List.append_inj' h rfl
    exact .inl ⟨rfl, List.head_eq_of_cons_eq hlast⟩
  · rw [List.concat_eq_append, ← List.cons_append, ← List.append_assoc] at h
    obtain ⟨hfront, hlast⟩ := List.append_inj' h rfl
    cases hlast
    exact .inr ⟨init, List.concat_eq_append, hfront⟩

theorem abandoned_token (front s : List Char) : Abandoned (front ++ token name) s := by
  intro f other hother h
  have hlast : (front ++ '{' :: name) ++ ['}'] = f ++ '{' :: other := by simpa [token] using h
  rcases snoc_eq_append_cons hlast with ⟨-, hbrace⟩ | ⟨init, rfl, -⟩
  · cases hbrace
  · exact absurd (plain_append.mp hother).2.close_notMem (by simp)

theorem Abandoned.snoc (h : Abandoned front (c :: s)) (hc : opening? (c :: s) = none) :
    Abandoned (front ++ [c]) s := by
  intro f name hname hf
  rcases snoc_eq_append_cons hf with ⟨rfl, rfl⟩ | ⟨init, rfl, hfront⟩
  · exact hc
  · simpa using h f init (plain_append.mp hname).1 hfront

theorem close_notMem_scan_of_abandoned (front : List Char) (ha : Abandoned front s)
    (h : Closed (front ++ s)) : .literal '}' ∉ scan s := by
  induction s using scan_induction generalizing front with
  | nil => simp [scan]
  | token name rest hname ih =>
    rw [← List.append_assoc] at h
    simpa [scan_token_append hname] using ih _ (abandoned_token front rest) h
  | literal c rest hc ih =>
    have hrest := ih (front ++ [c]) (ha.snoc hc) (by simpa using h)
    rw [scan_cons hc, List.mem_cons, not_or]
    refine ⟨?_, hrest⟩
    rintro ⟨⟩
    obtain ⟨f, name, hname, rfl⟩ := h front ⟨rest, by simp⟩
    cases (opening?_name hname).symm.trans (ha f name hname.2 rfl)

theorem close_notMem_scan (h : Closed s) : .literal '}' ∉ scan s := by
  refine close_notMem_scan_of_abandoned [] ?_ h
  intro f name _ hf
  simp at hf

-- ---------------------------------------------------------------------------
-- Reading segments back
-- ---------------------------------------------------------------------------

/-- Segments that a scan of their text gives back: one of the two braces occurs in
placeholders only. -/
structure Clean (segments : List Segment) : Prop where
  names : ∀ name, .placeholder name ∈ segments → IsName name
  braces : .literal '{' ∉ segments ∨ .literal '}' ∉ segments

theorem clean_scan (h : Opened s ∨ Closed s) : Clean (scan s) :=
  ⟨fun _ => isName_of_mem_scan, h.imp opened_iff.mp close_notMem_scan⟩

theorem Clean.tail (h : Clean (segment :: segments)) : Clean segments where
  names name hname := h.names name (List.mem_cons_of_mem _ hname)
  braces := h.braces.imp (mt (List.mem_cons_of_mem _)) (mt (List.mem_cons_of_mem _))

theorem flatMap_text_ne (h : .literal '}' ∉ segments) (hs : Plain s)
    (after : List Char) :
    segments.flatMap text ≠ s ++ '}' :: after := by
  induction s generalizing segments with
  | nil =>
    cases segments with
    | nil => simp
    | cons segment segments =>
      cases segment with
      | literal c => rintro ⟨⟩; simp at h
      | placeholder name => rintro ⟨⟩
  | cons d s ih =>
    obtain ⟨hd, hs⟩ := plain_cons.mp hs
    cases segments with
    | nil => simp
    | cons segment segments =>
      rw [List.mem_cons, not_or] at h
      cases segment with
      | literal c =>
        intro heq
        exact ih h.2 hs (List.cons.inj heq).2
      | placeholder name =>
        intro heq
        cases (List.cons.inj heq).1
        exact absurd hd (by decide)

theorem Clean.not_begins (h : Clean (.literal c :: segments)) (hname : Plain name) :
    ¬ token name <+: c :: segments.flatMap text := by
  rintro ⟨after, hs⟩
  obtain ⟨rfl, htail⟩ := List.cons.inj hs
  rcases h.braces with hopen | hclose
  · exact hopen List.mem_cons_self
  · refine flatMap_text_ne (mt (List.mem_cons_of_mem _) hclose) hname after ?_
    simpa using htail.symm

theorem Clean.opening?_literal (h : Clean (.literal c :: segments)) :
    opening? (c :: segments.flatMap text) = none := by
  refine Option.eq_none_iff_forall_ne_some.mpr ?_
  rintro ⟨name, after⟩ hsome
  obtain ⟨hname, hs⟩ := opening?_eq_some_iff.mp hsome
  exact h.not_begins hname.2 ⟨after, hs.symm⟩

theorem scan_flatMap_text (h : Clean segments) : scan (segments.flatMap text) = segments := by
  induction segments with
  | nil => simp [scan]
  | cons segment segments ih =>
    cases segment with
    | placeholder name =>
      rw [List.flatMap_cons, text, scan_token_append (h.names name List.mem_cons_self), ih h.tail]
    | literal c =>
      rw [List.flatMap_cons, text, List.singleton_append, scan_cons h.opening?_literal, ih h.tail]

end Segment

end Phrasebook
