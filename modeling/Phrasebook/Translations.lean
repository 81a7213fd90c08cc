import Phrasebook.Template

/-!
# Translations

One template for each of some locales. The entries are in ascending order of
their locales, by code point, so two collections with the same templates are
equal.
-/

namespace Phrasebook

/-- The name of a locale. Nothing is assumed of it. -/
abbrev Locale := String

/-- Puts a template under a locale in an ascending list, and says what it replaced. -/
def putTemplate (locale : Locale) (template : Template) :
    List (Locale × Template) → Option Template × List (Locale × Template)
  | [] => (none, [(locale, template)])
  | entry :: rest =>
    if locale < entry.1 then (none, (locale, template) :: entry :: rest)
    else if locale = entry.1 then (some entry.2, (locale, template) :: rest)
    else
      ((putTemplate locale template rest).1, entry :: (putTemplate locale template rest).2)

theorem mem_locales_putTemplate {locale other : Locale} {template : Template}
    {entries : List (Locale × Template)} :
    other ∈ (putTemplate locale template entries).2.map Prod.fst ↔
      other = locale ∨ other ∈ entries.map Prod.fst := by
  induction entries with
  | nil => simp [putTemplate]
  | cons entry rest ih =>
    unfold putTemplate
    split
    · simp
    · split
      · next h => simp [h]
      · rw [List.map_cons, List.mem_cons, ih, List.map_cons, List.mem_cons]
        exact or_left_comm

def Ascending (locales : List Locale) : Prop := locales.Pairwise (· < ·)

instance (locales : List Locale) : Decidable (Ascending locales) := by
  unfold Ascending; infer_instance

theorem Ascending.nodup {locales : List Locale} (h : Ascending locales) : locales.Nodup := by
  refine List.Pairwise.imp ?_ h
  rintro locale _ lt rfl
  exact String.lt_irrefl _ lt

theorem locale_lt_of_not {a b : Locale} (not_lt : ¬ a < b) (ne : a ≠ b) : b < a := by
  rcases String.le_total a b with h | h
  · exact absurd (String.le_antisymm h (String.not_lt.mp not_lt)) ne
  · refine Decidable.byContradiction fun not_gt => ?_
    exact ne (String.le_antisymm (String.not_lt.mp not_gt) h)

theorem Ascending.cons_of_lt {a b : Locale} {rest : List Locale} (h : Ascending (b :: rest))
    (lt : a < b) : Ascending (a :: b :: rest) := by
  refine List.pairwise_cons.mpr ⟨fun other mem => ?_, h⟩
  rcases List.mem_cons.mp mem with rfl | mem
  · exact lt
  · exact String.lt_trans lt ((List.pairwise_cons.mp h).1 other mem)

theorem Ascending.cons_of_mem {a b : Locale} {rest rest' : List Locale}
    (h : Ascending (a :: rest)) (h' : Ascending rest') (lt : a < b)
    (added : ∀ other ∈ rest', other = b ∨ other ∈ rest) : Ascending (a :: rest') := by
  refine List.pairwise_cons.mpr ⟨fun other mem => ?_, h'⟩
  rcases added other mem with rfl | mem
  · exact lt
  · exact (List.pairwise_cons.mp h).1 other mem

theorem ascending_putTemplate {locale : Locale} {template : Template}
    {entries : List (Locale × Template)} (h : Ascending (entries.map Prod.fst)) :
    Ascending ((putTemplate locale template entries).2.map Prod.fst) := by
  induction entries with
  | nil => exact List.pairwise_singleton ..
  | cons entry rest ih =>
    obtain ⟨above, ordered⟩ := List.pairwise_cons.mp h
    unfold putTemplate
    split
    · next lt => exact h.cons_of_lt lt
    · split
      · next eq => exact List.pairwise_cons.mpr ⟨eq ▸ above, ordered⟩
      · next not_lt ne =>
        exact h.cons_of_mem (ih ordered) (locale_lt_of_not not_lt ne) fun _ =>
          mem_locales_putTemplate.mp

theorem lookup_eq_none_of_lt {locale : Locale} {entry : Locale × Template}
    {rest : List (Locale × Template)} (h : Ascending ((entry :: rest).map Prod.fst))
    (lt : locale < entry.1) : (entry :: rest).lookup locale = none := by
  refine lookup_eq_none_iff_notMem.mpr fun mem => ?_
  rcases List.mem_cons.mp mem with rfl | mem
  · exact String.lt_irrefl _ lt
  · exact String.lt_irrefl _ (String.lt_trans lt ((List.pairwise_cons.mp h).1 _ mem))

theorem fst_putTemplate {locale : Locale} {template : Template}
    {entries : List (Locale × Template)} (h : Ascending (entries.map Prod.fst)) :
    (putTemplate locale template entries).1 = entries.lookup locale := by
  induction entries with
  | nil => rfl
  | cons entry rest ih =>
    unfold putTemplate
    split
    · next lt => exact (lookup_eq_none_of_lt h lt).symm
    · rw [lookup_cons_eq_ite]
      split
      · next same => rw [if_pos same.symm]
      · next different =>
        rw [if_neg (Ne.symm different)]
        exact ih (List.pairwise_cons.mp h).2

theorem lookup_putTemplate {locale other : Locale} {template : Template}
    {entries : List (Locale × Template)} :
    (putTemplate locale template entries).2.lookup other =
      if other = locale then some template else entries.lookup other := by
  induction entries with
  | nil => simp [putTemplate, lookup_cons_eq_ite, eq_comm]
  | cons entry rest ih =>
    unfold putTemplate
    split
    · rw [lookup_cons_eq_ite]
      simp only [eq_comm]
    · split
      · next same =>
        simp only [lookup_cons_eq_ite, ← same, eq_comm]
        split <;> rfl
      · next different =>
        simp only [lookup_cons_eq_ite, ih]
        split
        · next found => simp [← found, Ne.symm different]
        · rfl

/-- A template for each of some locales, in ascending order of the locales. -/
structure Translations where
  entries : List (Locale × Template)
  ascending : Ascending (entries.map Prod.fst)
  deriving DecidableEq

namespace Translations

def empty : Translations := ⟨[], .nil⟩

instance : Inhabited Translations := ⟨empty⟩

def exchange (translations : Translations) (locale : Locale) (template : Template) :
    Option Template × Translations :=
  ((putTemplate locale template translations.entries).1,
    ⟨(putTemplate locale template translations.entries).2,
      ascending_putTemplate translations.ascending⟩)

def insert (translations : Translations) (locale : Locale) (template : Template) :
    Translations :=
  (translations.exchange locale template).2

def ofList (entries : List (Locale × Template)) : Translations :=
  entries.foldl (fun translations entry => translations.insert entry.1 entry.2) empty

def get? (translations : Translations) (locale : Locale) : Option Template :=
  translations.entries.lookup locale

theorem fst_exchange {translations : Translations} {locale : Locale} {template : Template} :
    (translations.exchange locale template).1 = translations.get? locale :=
  fst_putTemplate translations.ascending

theorem get?_insert {translations : Translations} {locale other : Locale}
    {template : Template} :
    (translations.insert locale template).get? other =
      if other = locale then some template else translations.get? other :=
  lookup_putTemplate

theorem mem_entries_iff {translations : Translations} {locale : Locale} {template : Template} :
    (locale, template) ∈ translations.entries ↔ translations.get? locale = some template :=
  (lookup_eq_some_iff_mem translations.ascending.nodup).symm

def contains (translations : Translations) (locale : Locale) : Bool :=
  (translations.get? locale).isSome

def locales (translations : Translations) : List Locale := translations.entries.map Prod.fst

theorem mem_locales_iff {translations : Translations} {locale : Locale} :
    locale ∈ translations.locales ↔ ∃ template, translations.get? locale = some template := by
  simp [locales, mem_entries_iff]

def size (translations : Translations) : Nat := translations.entries.length

def isEmpty (translations : Translations) : Bool := translations.entries.isEmpty

end Translations

end Phrasebook
