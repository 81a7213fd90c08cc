import Mathlib.Data.List.Induction
import Phrasebook.Proofs.Lexing
import Phrasebook.Proofs.Writing
import Phrasebook.Translations.Json

/-!
# Translations in a text

A text writes some entries if it is an object whose fields say them, one after
another (`WrittenAs`). Such a text is read by inserting the entries in this
order. The text that a collection is turned into writes its own entries, so it
is read back, and no other collection has the same text (`written_and_read`).
-/

namespace Phrasebook

-- ---------------------------------------------------------------------------
-- Insertion one after another
-- ---------------------------------------------------------------------------

theorem putTemplate_of_above (h : ∀ entry ∈ entries, entry.1 < locale) :
    (putTemplate locale template entries).2 = entries ++ [(locale, template)] := by
  induction entries with
  | nil => rfl
  | cons entry rest ih =>
    rw [List.forall_mem_cons] at h
    obtain ⟨hlt, hrest⟩ := h
    have hnotLt : ¬ locale < entry.1 := fun hgt => String.lt_irrefl _ (String.lt_trans hlt hgt)
    have hne : locale ≠ entry.1 := fun heq => String.lt_irrefl _ (heq ▸ hlt)
    rw [putTemplate, if_neg hnotLt, if_neg hne, ih hrest, List.cons_append]

namespace Translations

theorem ofList_concat (entries : List (Locale × Template)) (entry : Locale × Template) :
    ofList (entries ++ [entry]) = (ofList entries).insert entry.1 entry.2 :=
  List.foldl_concat ..

theorem get?_ofList (entries : List (Locale × Template)) (locale : Locale) :
    (ofList entries).get? locale = entries.reverse.lookup locale := by
  induction entries using List.reverseRecOn with
  | nil => rfl
  | append_singleton entries entry ih =>
    rw [ofList_concat, get?_insert, ih, List.reverse_append, List.reverse_singleton,
      List.singleton_append, lookup_cons_eq_ite]
    simp only [eq_comm]

theorem entries_insert (translations : Translations) :
    (translations.insert locale template).entries =
      (putTemplate locale template translations.entries).2 :=
  rfl

theorem entries_ofList {list : List (Locale × Template)} (h : Ascending (list.map Prod.fst)) :
    (ofList list).entries = list := by
  induction list using List.reverseRecOn with
  | nil => rfl
  | append_singleton list entry ih =>
    rw [List.map_append] at h
    obtain ⟨hlist, -, habove⟩ := List.pairwise_append.mp h
    rw [ofList_concat, entries_insert, ih hlist]
    refine putTemplate_of_above fun other hother => ?_
    exact habove _ (List.mem_map_of_mem hother) _ List.mem_cons_self

theorem ofList_entries (translations : Translations) :
    ofList translations.entries = translations := by
  cases translations with
  | mk entries ascending => rw [mk.injEq]; exact entries_ofList ascending

-- ---------------------------------------------------------------------------
-- Texts
-- ---------------------------------------------------------------------------

/-- The text is an object whose fields say these entries, one after another. -/
def WrittenAs (entries : List (Locale × Template)) (text : String) : Prop :=
  ∃ fields, (Json.Tree.object fields none).WrittenAs text ∧
    List.Forall₂ (fun field entry => field.1.Says entry.1 ∧ field.2.Says entry.2.source)
      fields entries

theorem readEntry_eq_ok {entry : Locale × Template} (hlocale : field.1.Says entry.1)
    (htemplate : field.2.Says entry.2.source) : readEntry field = .ok entry := by
  rw [readEntry, hlocale.text, htemplate.text]
  rfl

theorem WrittenAs.read (h : WrittenAs list text) : ofJson text = .ok (ofList list) := by
  obtain ⟨fields, htext, hfields⟩ := h
  have hentries : fields.mapM readEntry = .ok list :=
    Json.mapM_eq_ok (hfields.imp fun _ _ h => readEntry_eq_ok h.1 h.2)
  rw [ofJson, htext.readText, ofTree, hentries]
  rfl

theorem sound_tree (list : List (Locale × Template)) : (tree list).Sound := by
  refine ⟨Json.Tree.soundFields_iff.mpr fun field hfield => ?_, rfl⟩
  obtain ⟨entry, -, rfl⟩ := List.mem_map.mp hfield
  exact ⟨rfl, rfl⟩

theorem writable_tree (list : List (Locale × Template)) : (tree list).Writable := by
  refine Json.Tree.writable_object fun field hfield => ?_
  obtain ⟨entry, -, rfl⟩ := List.mem_map.mp hfield
  exact ⟨Json.Quotation.writtenAs_ofText _, Json.Tree.writable_ofText _⟩

theorem writtenAs_tree (list : List (Locale × Template)) : WrittenAs list (tree list).written := by
  refine ⟨_, Json.Tree.writtenAs_written (sound_tree list) (writable_tree list), ?_⟩
  rw [List.forall₂_map_left_iff]
  exact List.forall₂_same.mpr fun entry _ =>
    ⟨Json.Quotation.says_ofText _, Json.Tree.says_ofText _⟩

theorem ofJson_toJson (translations : Translations) :
    ofJson translations.toJson = .ok translations := by
  have hread := (writtenAs_tree translations.entries).read
  rwa [ofList_entries] at hread

theorem toJson_inj {m m' : Translations} : m.toJson = m'.toJson ↔ m = m' where
  mp h := by
    have hread := ofJson_toJson m
    rw [h, ofJson_toJson m'] at hread
    exact (Except.ok.inj hread).symm
  mpr h := congrArg toJson h

/-- A list of entries has a text, and any text of it is read by inserting the entries one after
another, so that the last template of a locale counts. A collection is turned into a text of its
entries in ascending order, from which it is read again, and which no other collection has. -/
theorem written_and_read (list : List (Locale × Template)) (m m' : Translations) :
    WrittenAs list (tree list).written ∧
    (∀ text, WrittenAs list text → ofJson text = .ok (ofList list)) ∧
    (∀ locale, (ofList list).get? locale = list.reverse.lookup locale) ∧
    WrittenAs m.entries m.toJson ∧ Ascending m.locales ∧ ofJson m.toJson = .ok m ∧
    (m.toJson = m'.toJson ↔ m = m') :=
  ⟨writtenAs_tree list, fun _ h => h.read, get?_ofList list, writtenAs_tree m.entries,
    m.ascending, ofJson_toJson m, toJson_inj⟩

theorem written_and_read_pair :
    ofJson "\x7b\"a\":\"x\", \"a\":\"\\ud83d\\uDE00\"\x7d" =
      .ok (ofList [("a", ⟨"x"⟩), ("a", ⟨"😀"⟩)]) ∧
    (ofList [("a", ⟨"x"⟩), ("a", ⟨"😀"⟩)]).get? "a" = some ⟨"😀"⟩ := by
  have hkey : Json.PartsWrittenAs [.char 'a'] ['a'] :=
    .cons (.raw (by decide) (by decide) (by decide)) .nil
  have hfirst : Json.PartsWrittenAs [.char 'x'] ['x'] :=
    .cons (.raw (by decide) (by decide) (by decide)) .nil
  have hlead : (Json.Part.unit 0xd83d).WrittenAs ['\\', 'u', 'd', '8', '3', 'd'] :=
    .unit (i := 13) (j := 8) (k := 3) (l := 13) (.inl rfl) (.inl rfl) (.inl rfl) (.inl rfl)
  have htrail : (Json.Part.unit 0xde00).WrittenAs ['\\', 'u', 'D', 'E', '0', '0'] :=
    .unit (i := 13) (j := 14) (k := 0) (l := 0) (.inr rfl) (.inr rfl) (.inl rfl) (.inl rfl)
  have hsecond := Json.PartsWrittenAs.cons hlead (.cons htrail .nil)
  have hrow := Json.Row.symbol .beginObject rfl <| .symbol (.string hkey) rfl <|
    .symbol .colon rfl <| .symbol (.string hfirst) rfl <| .symbol .comma rfl <|
    .blank (c := ' ') (by decide) <| .symbol (.string hkey) rfl <| .symbol .colon rfl <|
    .symbol (.string hsecond) rfl <| .symbol .endObject rfl .nil
  have htext : WrittenAs [("a", ⟨"x"⟩), ("a", ⟨"😀"⟩)]
      "\x7b\"a\":\"x\", \"a\":\"\\ud83d\\uDE00\"\x7d" := by
    refine ⟨[(⟨[.char 'a'], none⟩, .string ⟨[.char 'x'], none⟩),
      (⟨[.char 'a'], none⟩, .string ⟨[.unit 0xd83d, .unit 0xde00], none⟩)], ⟨?_, hrow⟩, ?_⟩
    · exact ⟨⟨rfl, rfl, rfl, rfl, trivial⟩, rfl⟩
    · exact .cons ⟨⟨rfl, .char 'a' .nil⟩, _, rfl, rfl, .char 'x' .nil⟩ <|
        .cons ⟨⟨rfl, .char 'a' .nil⟩, _, rfl, rfl, .pair '😀' (by decide) .nil⟩ .nil
  obtain ⟨-, hread, hlast, -⟩ := written_and_read [("a", ⟨"x"⟩), ("a", ⟨"😀"⟩)] empty empty
  exact ⟨hread _ htext, hlast "a"⟩

end Translations

end Phrasebook
