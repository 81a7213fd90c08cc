import Mathlib.Data.List.Sort
import Phrasebook.Proofs.AddedVariants
import Phrasebook.Proofs.Histories
import Phrasebook.Proofs.TranslationsText

/-!
# Translations are the templates they have

Translations are decided by the templates that were put in, in whichever ways this
was done (`Built.eq_ofList`): one after another, or all at once by sorting them and
leaving out those that another one of the same locale follows (`gather`). The two
come to the same because the sorting is stable (`filter_sortEntries`). Translations
with the same templates are equal (`ext_get?`), since the order of the locales is
fixed.
-/

namespace Phrasebook

section

variable {α : Type}

/-- The entries in ascending order of their keys. Those of one key stay in their order. -/
def sortEntries (entries : List (String × α)) : List (String × α) :=
  entries.mergeSort fun entry other => entry.1 ≤ other.1

/-- Leaves out the entries that are followed by one of the same key. -/
def lastOfEach : List (String × α) → List (String × α)
  | [] => []
  | entry :: rest =>
    if rest.head?.map Prod.fst = some entry.1 then lastOfEach rest else entry :: lastOfEach rest

variable {entries rest : List (String × α)} {entry : String × α} {key : String} {a : α}

-- ---------------------------------------------------------------------------
-- Sorting
-- ---------------------------------------------------------------------------

theorem key_le_trans (a b c : String × α) (hab : decide (a.1 ≤ b.1)) (hbc : decide (b.1 ≤ c.1)) :
    decide (a.1 ≤ c.1) :=
  decide_eq_true (String.le_trans (of_decide_eq_true hab) (of_decide_eq_true hbc))

theorem key_le_total (a b : String × α) : decide (a.1 ≤ b.1) || decide (b.1 ≤ a.1) := by
  simpa using String.le_total a.1 b.1

theorem pairwise_sortEntries (entries : List (String × α)) :
    (sortEntries entries).Pairwise fun entry other => entry.1 ≤ other.1 :=
  (List.pairwise_mergeSort key_le_trans key_le_total entries).imp of_decide_eq_true

theorem filter_sortEntries (entries : List (String × α)) (key : String) :
    ((sortEntries entries).filter fun entry => entry.1 == key) =
      entries.filter fun entry => entry.1 == key := by
  have hkey (entry) (h : entry ∈ entries.filter fun entry => entry.1 == key) : entry.1 = key := by
    simpa using (List.mem_filter.mp h).2
  -- The entries of one key are in order as they stand, so the sorting leaves them so.
  have hsorted : (entries.filter fun entry => entry.1 == key).Pairwise fun entry other =>
      decide (entry.1 ≤ other.1) = true := by
    refine List.pairwise_of_forall_mem_list fun entry hentry other hother => ?_
    simp [hkey entry hentry, hkey other hother]
  have hsub : (entries.filter fun entry => entry.1 == key).Sublist (sortEntries entries) :=
    List.sublist_mergeSort key_le_trans key_le_total hsorted List.filter_sublist
  have hfilter := hsub.filter fun entry => entry.1 == key
  rw [List.filter_eq_self.mpr fun entry h => beq_iff_eq.mpr (hkey entry h)] at hfilter
  have hperm : (sortEntries entries).Perm entries := List.mergeSort_perm entries _
  exact (hfilter.eq_of_length (hperm.filter _).length_eq.symm).symm

-- ---------------------------------------------------------------------------
-- The last entry of each key
-- ---------------------------------------------------------------------------

theorem lastOfEach_sublist (entries : List (String × α)) :
    (lastOfEach entries).Sublist entries := by
  induction entries with
  | nil => exact .slnil
  | cons entry rest ih =>
    rw [lastOfEach]
    split
    · exact ih.cons entry
    · exact ih.cons_cons entry

theorem lt_of_head?_ne (h : (entry :: rest).Pairwise fun entry other => entry.1 ≤ other.1)
    (hhead : rest.head?.map Prod.fst ≠ some entry.1) :
    ∀ other ∈ rest, entry.1 < other.1 := by
  cases rest with
  | nil => simp
  | cons next rest =>
    intro other hother
    obtain ⟨hentry, hrest⟩ := List.pairwise_cons.mp h
    have hnext : next.1 ≤ other.1 := by
      rcases List.mem_cons.mp hother with rfl | hother
      · exact String.le_refl _
      · exact (List.pairwise_cons.mp hrest).1 other hother
    refine locale_lt_of_not (String.not_lt.mpr (hentry other hother)) fun hsame => hhead ?_
    have hle : next.1 ≤ entry.1 := hsame ▸ hnext
    exact congrArg some (String.le_antisymm hle (hentry next List.mem_cons_self))

theorem ascending_lastOfEach (h : entries.Pairwise fun entry other => entry.1 ≤ other.1) :
    Ascending ((lastOfEach entries).map Prod.fst) := by
  induction entries with
  | nil => exact .nil
  | cons entry rest ih =>
    rw [lastOfEach]
    split
    · exact ih h.of_cons
    · next hhead =>
      refine List.pairwise_cons.mpr ⟨fun key hkey => ?_, ih h.of_cons⟩
      obtain ⟨other, hother, rfl⟩ := List.mem_map.mp hkey
      exact lt_of_head?_ne h hhead other ((lastOfEach_sublist rest).subset hother)

theorem mem_lastOfEach_iff (h : entries.Pairwise fun entry other => entry.1 ≤ other.1) :
    (key, a) ∈ lastOfEach entries ↔ Latest entries key a := by
  induction entries with
  | nil => simp [lastOfEach, not_latest_nil]
  | cons entry rest ih =>
    rw [latest_cons, lastOfEach, ← ih h.of_cons]
    split
    · next hhead =>
      have hmem : entry.1 ∈ rest.map Prod.fst :=
        List.mem_of_mem_head? (List.head?_map.trans hhead)
      refine (or_iff_left ?_).symm
      rintro ⟨rfl, hnotMem⟩
      exact hnotMem hmem
    · next hhead =>
      have hnotMem : entry.1 ∉ rest.map Prod.fst := fun hmem => by
        obtain ⟨other, hother, hsame⟩ := List.mem_map.mp hmem
        exact String.lt_irrefl _ (hsame ▸ lt_of_head?_ne h hhead other hother)
      rw [List.mem_cons, or_comm]
      refine or_congr_right (iff_self_and.mpr ?_)
      rintro rfl
      exact hnotMem

end

namespace Translations

def gather (entries : List (Locale × Template)) : Translations :=
  ⟨lastOfEach (sortEntries entries), ascending_lastOfEach (pairwise_sortEntries entries)⟩

/-- Translations that come of putting in these templates, one after another, in any of the ways to
do this. -/
inductive Built : List (Locale × Template) → Translations → Prop
  | empty : Built [] .empty
  | ofList (list : List (Locale × Template)) : Built list (.ofList list)
  | gather (list : List (Locale × Template)) : Built list (.gather list)
  | insert (h : Built history m) (locale : Locale) (template : Template) :
    Built (history ++ [(locale, template)]) (m.insert locale template)
  | exchange (h : Built history m) (locale : Locale) (template : Template) :
    Built (history ++ [(locale, template)]) (m.exchange locale template).2

structure KeepTo (history : List (Locale × Template)) (m : Translations) : Prop where
  ascending : Ascending m.locales
  locales : ∀ locale, locale ∈ m.locales ↔ locale ∈ history.map Prod.fst
  entries : ∀ locale template, (locale, template) ∈ m.entries ↔ Latest history locale template
  size : m.size = (history.map Prod.fst).toFinset.card
  isEmpty : m.isEmpty ↔ history = []
  get? : ∀ locale template, m.get? locale = some template ↔ Latest history locale template
  get?_none : ∀ locale, m.get? locale = none ↔ locale ∉ history.map Prod.fst
  contains : ∀ locale, m.contains locale ↔ locale ∈ history.map Prod.fst

variable {history history' : List (Locale × Template)} {m m' : Translations}
  {locale locale' : Locale} {template : Template}

-- ---------------------------------------------------------------------------
-- Extensionality
-- ---------------------------------------------------------------------------

theorem ext_get? : m = m' ↔ ∀ locale, m.get? locale = m'.get? locale := by
  refine ⟨fun h _ => h ▸ rfl, fun h => ?_⟩
  have hasymm : Std.Asymm fun entry other : Locale × Template => entry.1 < other.1 :=
    ⟨fun _ _ hlt hgt => String.lt_irrefl _ (String.lt_trans hlt hgt)⟩
  have hentries : m.entries = m'.entries := by
    refine List.Pairwise.eq_of_mem_iff (List.pairwise_map.mp m.ascending)
      (List.pairwise_map.mp m'.ascending) fun entry => ?_
    rw [mem_entries_iff, mem_entries_iff, h]
  cases m
  cases m'
  rwa [mk.injEq]

theorem insert_insert_comm (h : locale ≠ locale') (template template' : Template) :
    (m.insert locale template).insert locale' template' =
      (m.insert locale' template').insert locale template := by
  refine ext_get?.mpr fun other => ?_
  simp only [get?_insert]
  split_ifs with hsame hsame'
  · exact absurd (hsame'.symm.trans hsame) h
  · rfl
  · rfl
  · rfl

-- ---------------------------------------------------------------------------
-- All insertions
-- ---------------------------------------------------------------------------

theorem get?_ofList_iff :
    (ofList history).get? locale = some template ↔ Latest history locale template := by
  rw [get?_ofList, latest_iff]

theorem gather_eq_ofList (list : List (Locale × Template)) : gather list = ofList list := by
  refine ext_get?.mpr fun locale => Option.ext fun template => ?_
  rw [← mem_entries_iff, get?_ofList_iff]
  exact (mem_lastOfEach_iff (pairwise_sortEntries list)).trans
    (latest_congr (filter_sortEntries list locale))

theorem Built.eq_ofList (h : Built history m) : m = .ofList history := by
  induction h with
  | empty => rfl
  | ofList list => rfl
  | gather list => exact gather_eq_ofList list
  | insert _ locale template ih => rw [ih, ofList_concat]
  | exchange _ locale template ih => rw [ih, ofList_concat, Translations.insert]

theorem ofList_eq_iff :
    ofList history = ofList history' ↔
      ∀ locale template, Latest history locale template ↔ Latest history' locale template := by
  rw [ext_get?]
  refine forall_congr' fun locale => ?_
  rw [Option.ext_iff]
  simp only [get?_ofList_iff]

theorem keepTo_ofList (history : List (Locale × Template)) : KeepTo history (ofList history) := by
  have hlocales (locale : Locale) :
      locale ∈ (ofList history).locales ↔ locale ∈ history.map Prod.fst := by
    rw [mem_locales_iff, ← exists_latest_iff]
    simp only [get?_ofList_iff]
  have hcontains (locale : Locale) :
      (ofList history).contains locale ↔ locale ∈ history.map Prod.fst := by
    rw [contains, Option.isSome_iff_exists, ← hlocales, mem_locales_iff]
  have hsize : (ofList history).size = (history.map Prod.fst).toFinset.card := by
    have hlength := length_eq_card (ofList history).ascending.nodup hlocales
    rwa [List.length_map] at hlength
  exact {
    ascending := (ofList history).ascending
    locales := hlocales
    entries _ _ := mem_entries_iff.trans get?_ofList_iff
    size := hsize
    isEmpty := by
      rw [isEmpty, List.isEmpty_iff_length_eq_zero, ← size, hsize]
      simp
    get? _ _ := get?_ofList_iff
    get?_none locale := by rw [← hcontains, contains]; simp
    contains := hcontains }

theorem eq_iff_latest (h : Built history m) (h' : Built history' m') :
    m = m' ↔
      ∀ locale template, Latest history locale template ↔ Latest history' locale template := by
  rw [h.eq_ofList, h'.eq_ofList, ofList_eq_iff]

/-- Translations follow from what was put in, and each insertion says what it took the place of.
Insertions for two locales may change places. Translations are equal when they have the same
template for each locale, whichever ways they were built in; then they have the same text, and a
phrase has the same findings with the one as with the other, at its base or in a variant. -/
theorem built_extensional (h : Built history m) (h' : Built history' m') :
    KeepTo history m ∧
      (∀ locale template, (m.exchange locale template).1 = m.get? locale) ∧
      (∀ locale locale' template template', locale ≠ locale' →
        (m.insert locale template).insert locale' template' =
          (m.insert locale' template').insert locale template) ∧
      (m = m' ↔ ∀ locale, m.get? locale = m'.get? locale) ∧
      (m = m' ↔
        ∀ locale template, Latest history locale template ↔ Latest history' locale template) ∧
      (m.toJson = m'.toJson ↔
        ∀ locale template, Latest history locale template ↔ Latest history' locale template) ∧
      ((∀ locale template, Latest history locale template ↔ Latest history' locale template) →
        ∀ supported,
          (∀ variants, (⟨m, variants⟩ : Phrase).findings supported =
            (⟨m', variants⟩ : Phrase).findings supported) ∧
          ∀ base before after guard guard',
            (⟨base, before ++ ⟨guard, m⟩ :: after⟩ : Phrase).findings supported =
              (⟨base, before ++ ⟨guard', m'⟩ :: after⟩ : Phrase).findings supported) := by
  refine ⟨h.eq_ofList ▸ keepTo_ofList history, fun _ _ => fst_exchange,
    fun _ _ template template' hne => insert_insert_comm hne template template', ext_get?,
    eq_iff_latest h h', toJson_inj.trans (eq_iff_latest h h'), fun hlatest supported => ?_⟩
  obtain rfl := (eq_iff_latest h h').mpr hlatest
  refine ⟨fun _ => rfl, fun base before after guard guard' => ?_⟩
  apply Phrase.findings_congr
  · rfl
  · simp only [List.map_append, List.map_cons]

theorem built_extensional_reordered :
    let m := (gather [("fr", ⟨"x"⟩), ("en", ⟨"a"⟩), ("fr", ⟨"y"⟩)]).insert "de" ⟨"z"⟩
    let m' := (((ofList [("de", ⟨"w"⟩), ("en", ⟨"a"⟩)]).exchange "fr" ⟨"y"⟩).2).insert "de" ⟨"z"⟩
    m = m' ∧ m.toJson = m'.toJson ∧ m.get? "fr" = some ⟨"y"⟩ ∧ m.size = 3 ∧
      (m.exchange "en" ⟨"b"⟩).1 = some ⟨"a"⟩ := by
  intro m m'
  have hbuilt : Built ([("fr", ⟨"x"⟩), ("en", ⟨"a"⟩), ("fr", ⟨"y"⟩)] ++ [("de", ⟨"z"⟩)]) m :=
    (Built.gather _).insert "de" _
  have hbuilt' :
      Built ([("de", ⟨"w"⟩), ("en", ⟨"a"⟩)] ++ [("fr", ⟨"y"⟩)] ++ [("de", ⟨"z"⟩)]) m' :=
    ((Built.ofList _).exchange "fr" _).insert "de" _
  obtain ⟨hkeep, hexchange, -, -, hext, htext, -⟩ := built_extensional hbuilt hbuilt'
  have hlatest (locale : Locale) (template : Template) :
      Latest ([("fr", ⟨"x"⟩), ("en", ⟨"a"⟩), ("fr", ⟨"y"⟩)] ++ [("de", ⟨"z"⟩)]) locale template ↔
        Latest ([("de", ⟨"w"⟩), ("en", ⟨"a"⟩)] ++ [("fr", ⟨"y"⟩)] ++ [("de", ⟨"z"⟩)])
          locale template := by
    grind [latest_cons, not_latest_nil]
  have hfr : m.get? "fr" = some ⟨"y"⟩ :=
    (hkeep.get? _ _).mpr ⟨[("fr", ⟨"x"⟩), ("en", ⟨"a"⟩)], _, rfl, by simp⟩
  have hen : m.get? "en" = some ⟨"a"⟩ :=
    (hkeep.get? _ _).mpr ⟨[("fr", ⟨"x"⟩)], _, rfl, by simp⟩
  refine ⟨hext.mpr hlatest, htext.mpr hlatest, hfr, ?_, (hexchange ..).trans hen⟩
  exact hkeep.size.trans (by decide +kernel)

end Translations

end Phrasebook
