import Phrasebook.Proofs.Lexing
import Phrasebook.Proofs.Writing
import Phrasebook.Session

/-!
# A choice of locales in a text

A text presents a choice if it has the two values as an object among any unknown
fields, or as a list (`Presents`); from such a text the choice is read. An object
that is read has each of the two names exactly once (`count_named`): what the
draft has and the fields that are still to come are counted together.
-/

namespace Phrasebook.LocaleChoice

open Json (Quotation Tree)

variable {choice : LocaleChoice} {field : Quotation × Tree} {fields : List (Quotation × Tree)}

def Unknown (field : Quotation × Tree) : Prop :=
  ∃ name, field.1.Says name ∧ ∀ f : Field, name ≠ f.name

def Value (choice : LocaleChoice) : Field → Tree → Prop
  | .locales, t => t.Lists choice.supported
  | .currentLocale, t => t.Says choice.current

structure Holds (choice : LocaleChoice) (f : Field) (field : Quotation × Tree) : Prop where
  name : field.1.Says f.name
  value : choice.Value f field.2

/-- An object with the two fields in any order and any unknown fields among them, or the list of
the two values. -/
inductive Presents (choice : LocaleChoice) : Tree → Prop
  | object {locales current : Quotation × Tree} {others fields : List (Quotation × Tree)}
    (hlocales : choice.Holds .locales locales) (hcurrent : choice.Holds .currentLocale current)
    (hothers : ∀ field ∈ others, Unknown field)
    (hfields : fields.Perm (locales :: current :: others)) : Presents choice (.object fields none)
  | list {locales current : Tree} (hlocales : choice.Value .locales locales)
    (hcurrent : choice.Value .currentLocale current) :
    Presents choice (.list [locales, current] none)

-- ---------------------------------------------------------------------------
-- Names of fields
-- ---------------------------------------------------------------------------

theorem Field.ofName?_eq_some {f : Field} {s : String} : ofName? s = some f ↔ s = f.name := by
  unfold ofName?
  split
  · next h => cases f <;> simp [h, Field.name]
  · split
    · next h => cases f <;> simp [h, Field.name]
    · next hlocales hcurrent => cases f <;> simp [hlocales, hcurrent]

theorem Field.ofName?_name (f : Field) : ofName? f.name = some f := ofName?_eq_some.mpr rfl

def Field.named (f : Field) (field : Quotation × Tree) : Bool :=
  field.1.text.toOption == some f.name

theorem Field.named_iff {f : Field} : f.named field ↔ field.1.text = .ok f.name := by
  cases h : field.1.text <;> simp [named, h, Except.toOption]

theorem Field.name_inj {f g : Field} : f.name = g.name ↔ f = g := by
  cases f <;> cases g <;> simp [name]

theorem Holds.named {g : Field} (h : choice.Holds g field) (f : Field) :
    f.named field = decide (f = g) := by
  rw [Bool.eq_iff_iff, Field.named_iff, h.name.text, Except.ok.injEq, Field.name_inj,
    decide_eq_true_iff, eq_comm]

theorem Unknown.named (h : Unknown field) (f : Field) : f.named field = false := by
  obtain ⟨name, hname, hne⟩ := h
  refine Bool.eq_false_iff.mpr fun hnamed => ?_
  rw [Field.named_iff, hname.text, Except.ok.injEq] at hnamed
  exact hne f hnamed

theorem Field.countP_named_cons (f : Field) (field : Quotation × Tree)
    (fields : List (Quotation × Tree)) :
    (field :: fields).countP f.named = fields.countP f.named + (f.named field).toNat := by
  rw [List.countP_cons]
  cases f.named field <;> rfl

-- ---------------------------------------------------------------------------
-- Drafts
-- ---------------------------------------------------------------------------

namespace Draft

def has (draft : Draft) : Field → Bool
  | .locales => draft.supported.isSome
  | .currentLocale => draft.current.isSome

theorem has_of_readField {draft next : Draft} (h : draft.readField field = .ok next) (f : Field) :
    (f.named field).toNat + (draft.has f).toNat = (next.has f).toNat := by
  obtain ⟨name, hname, h⟩ := Json.bind_eq_ok.mp h
  rw [Json.sound_eq_ok] at hname
  have hnamed : f.named field = decide (Field.ofName? name = some f) := by
    rw [Bool.eq_iff_iff, Field.named_iff, hname, Except.ok.injEq, decide_eq_true_iff,
      Field.ofName?_eq_some]
  rw [hnamed]
  split at h
  · next hsome =>
    split at h
    · cases h
    · next hempty =>
      obtain ⟨supported, -, h⟩ := Json.bind_eq_ok.mp h
      cases h
      cases f <;> simp [hsome, has, hempty]
  · next hsome =>
    split at h
    · cases h
    · next hempty =>
      obtain ⟨current, -, h⟩ := Json.bind_eq_ok.mp h
      cases h
      cases f <;> simp [hsome, has, hempty]
  · next hnone =>
    obtain ⟨-, -, h⟩ := Json.bind_eq_ok.mp h
    cases h
    simp [hnone]

theorem has_of_foldlM {draft last : Draft} (h : fields.foldlM readField draft = .ok last)
    (f : Field) : fields.countP f.named + (draft.has f).toNat = (last.has f).toNat := by
  induction fields generalizing draft with
  | nil => cases h; simp
  | cons field fields ih =>
    rw [List.foldlM_cons] at h
    obtain ⟨next, hnext, h⟩ := Json.bind_eq_ok.mp h
    have hfirst := has_of_readField hnext f
    have hrest := ih h
    rw [Field.countP_named_cons]
    omega

theorem has_of_finish {draft : Draft} (h : draft.finish = .ok choice) (f : Field) :
    draft.has f = true := by
  unfold finish at h
  split at h
  · cases f <;> rfl
  · cases h
  · cases h

/-- A draft that has the values of the choice in some places. -/
def partOf (choice : LocaleChoice) (places : Field → Bool) : Draft :=
  ⟨if places .locales then some choice.supported else none,
    if places .currentLocale then some choice.current else none⟩

theorem has_partOf (choice : LocaleChoice) (places : Field → Bool) (f : Field) :
    (partOf choice places).has f = places f := by
  cases f with
  | locales => cases h : places .locales <;> simp [has, partOf, h]
  | currentLocale => cases h : places .currentLocale <;> simp [has, partOf, h]

theorem readField_of_unknown (h : Unknown field) (hsound : field.2.Sound) (draft : Draft) :
    draft.readField field = .ok draft := by
  obtain ⟨name, hname, hne⟩ := h
  have hnone : Field.ofName? name = none :=
    Option.eq_none_iff_forall_ne_some.mpr fun f h => hne f (Field.ofName?_eq_some.mp h)
  simp only [readField, hname.text, Json.sound, bind, Except.bind, hnone,
    Json.Tree.skip_of_sound _ hsound]

theorem readField_of_holds {f : Field} (h : choice.Holds f field) {places : Field → Bool}
    (hempty : places f = false) :
    ∃ next, (partOf choice places).readField field = .ok (partOf choice next) := by
  refine ⟨fun g => g = f || places g, ?_⟩
  have hname := h.name.text
  cases f with
  | locales =>
    have hvalue : field.2.texts = .ok choice.supported := Json.Tree.Lists.texts h.value
    simp [readField, hname, Json.sound, bind, Except.bind, Field.ofName?_name, partOf, hempty,
      hvalue]
  | currentLocale =>
    have hvalue : field.2.text = .ok choice.current := Json.Tree.Says.text h.value
    simp [readField, hname, Json.sound, bind, Except.bind, Field.ofName?_name, partOf, hempty,
      hvalue]

/-- There is room for each field that is still to come. -/
theorem foldlM_readField (places : Field → Bool)
    (hfields : ∀ field ∈ fields, Unknown field ∧ field.2.Sound ∨ ∃ f, choice.Holds f field)
    (hcount : ∀ f, fields.countP f.named + (places f).toNat ≤ 1) :
    ∃ last, fields.foldlM readField (partOf choice places) = .ok (partOf choice last) := by
  induction fields generalizing places with
  | nil => exact ⟨places, rfl⟩
  | cons field fields ih =>
    rw [List.forall_mem_cons] at hfields
    obtain ⟨hfield, hrest⟩ := hfields
    have hnext : ∃ next, (partOf choice places).readField field = .ok (partOf choice next) := by
      rcases hfield with ⟨hunknown, hsound⟩ | ⟨f, hholds⟩
      · exact ⟨places, readField_of_unknown hunknown hsound _⟩
      · have hnamed : f.named field = true := Field.named_iff.mpr hholds.name.text
        have hroom := hcount f
        rw [Field.countP_named_cons, hnamed, Bool.toNat_true] at hroom
        exact readField_of_holds hholds (Bool.toNat_eq_zero.mp (by omega))
    obtain ⟨next, hnext⟩ := hnext
    have hroom : ∀ f, fields.countP f.named + (next f).toNat ≤ 1 := fun f => by
      have hhas := has_of_readField hnext f
      have hbefore := hcount f
      rw [has_partOf, has_partOf] at hhas
      rw [Field.countP_named_cons] at hbefore
      omega
    obtain ⟨last, hlast⟩ := ih next hrest hroom
    exact ⟨last, by rw [List.foldlM_cons, hnext]; exact hlast⟩

end Draft

theorem count_named (h : ofTree (.object fields none) = .ok choice) (f : Field) :
    fields.countP f.named = 1 := by
  obtain ⟨draft, hdraft, h⟩ := Json.bind_eq_ok.mp h
  obtain ⟨-, -, hfinish⟩ := Json.bind_eq_ok.mp h
  have hcount := Draft.has_of_foldlM hdraft f
  rw [Draft.has_of_finish hfinish f] at hcount
  cases f <;> exact hcount

-- ---------------------------------------------------------------------------
-- Texts
-- ---------------------------------------------------------------------------

theorem ofTree_object
    (hfields : ∀ field ∈ fields, Unknown field ∧ field.2.Sound ∨ ∃ f, choice.Holds f field)
    (hcount : ∀ f : Field, fields.countP f.named = 1) :
    ofTree (.object fields none) = .ok choice := by
  have hempty : Draft.empty = Draft.partOf choice fun _ => false := rfl
  obtain ⟨last, hlast⟩ :=
    Draft.foldlM_readField (fun _ => false) hfields fun f => Nat.le_of_eq (hcount f)
  have hfull : ∀ f, last f = true := fun f => by
    have hhas := Draft.has_of_foldlM hlast f
    rw [Draft.has_partOf, Draft.has_partOf, hcount f] at hhas
    exact Bool.toNat_eq_one.mp hhas.symm
  rw [ofTree, hempty, hlast, Draft.partOf, if_pos (hfull _), if_pos (hfull _)]
  rfl

theorem countP_named {locales current : Quotation × Tree} {others : List (Quotation × Tree)}
    (hlocales : choice.Holds .locales locales) (hcurrent : choice.Holds .currentLocale current)
    (hothers : ∀ field ∈ others, Unknown field) (f : Field) :
    (locales :: current :: others).countP f.named = 1 := by
  have hnone : others.countP f.named = 0 :=
    List.countP_eq_zero.mpr fun field hfield => by simp [(hothers field hfield).named f]
  rw [Field.countP_named_cons, Field.countP_named_cons, hnone, hlocales.named, hcurrent.named]
  cases f <;> rfl

theorem Presents.ofTree {t : Tree} (h : choice.Presents t) (hsound : t.Sound) :
    ofTree t = .ok choice := by
  cases h with
  | object hlocales hcurrent hothers hfields =>
    refine ofTree_object (fun field hfield => ?_) fun f => ?_
    · have hmem := hfields.mem_iff.mp hfield
      rw [List.mem_cons, List.mem_cons] at hmem
      rcases hmem with rfl | rfl | hmem
      · exact .inr ⟨_, hlocales⟩
      · exact .inr ⟨_, hcurrent⟩
      · exact .inl ⟨hothers field hmem, (Json.Tree.soundFields_iff.mp hsound.1 field hfield).2⟩
    · rw [hfields.countP_eq]
      exact countP_named hlocales hcurrent hothers f
  | list hlocales hcurrent =>
    have hsupported := Json.Tree.Lists.texts hlocales
    have hlocale := Json.Tree.Says.text hcurrent
    rw [LocaleChoice.ofTree, ofItems, hsupported, hlocale]
    rfl

theorem presents_tree (choice : LocaleChoice) : choice.Presents choice.tree := by
  have hsupported : choice.Value .locales (.list (choice.supported.map .ofText) none) := by
    refine ⟨_, rfl, ?_⟩
    rw [List.forall₂_map_left_iff]
    exact List.forall₂_same.mpr fun s _ => Json.Tree.says_ofText s
  have hcurrent : choice.Value .currentLocale (.ofText choice.current) :=
    Json.Tree.says_ofText choice.current
  exact .object ⟨Json.Quotation.says_ofText _, hsupported⟩
    ⟨Json.Quotation.says_ofText _, hcurrent⟩ (List.forall_mem_nil _) (.refl _)

theorem writtenAs_toJson (choice : LocaleChoice) : choice.tree.WrittenAs choice.toJson := by
  refine Json.Tree.writtenAs_written ?_ (Json.Tree.writable_object ?_)
  · have hsupported : ∀ item ∈ choice.supported.map Tree.ofText, item.Sound := by
      intro item hitem
      obtain ⟨s, -, rfl⟩ := List.mem_map.mp hitem
      exact rfl
    exact ⟨⟨rfl, ⟨Json.Tree.soundItems_iff.mpr hsupported, rfl⟩, rfl, rfl, trivial⟩, rfl⟩
  · have hsupported : (Tree.list (choice.supported.map .ofText) none).Writable := by
      refine Json.Tree.writable_list fun item hitem => ?_
      obtain ⟨s, -, rfl⟩ := List.mem_map.mp hitem
      exact Json.Tree.writable_ofText s
    simp only [List.forall_mem_cons]
    exact ⟨⟨Json.Quotation.writtenAs_ofText _, hsupported⟩,
      ⟨Json.Quotation.writtenAs_ofText _, Json.Tree.writable_ofText _⟩, List.forall_mem_nil _⟩

theorem not_read {text : String} (htext : (Tree.object fields none).WrittenAs text) {f : Field}
    (h : (∀ field ∈ fields, ¬ field.1.Says f.name) ∨
      ∃ a b, [a, b].Sublist fields ∧ a.1.Says f.name ∧ b.1.Says f.name) :
    ∃ e, ofJson text = .error e := by
  rw [ofJson, htext.readText]
  cases hread : LocaleChoice.ofTree (.object fields none) with
  | error e => exact ⟨e, rfl⟩
  | ok choice =>
    have hcount := count_named hread f
    rcases h with habsent | ⟨a, b, hsublist, ha, hb⟩
    · have hnone : fields.countP f.named = 0 := List.countP_eq_zero.mpr fun field hfield hnamed =>
        habsent field hfield ((htext.key_text_iff hfield).mp (Field.named_iff.mp hnamed))
      omega
    · have ha : f.named a = true := Field.named_iff.mpr ha.text
      have hb : f.named b = true := Field.named_iff.mpr hb.text
      have htwo : [a, b].countP f.named = 2 := by
        rw [List.countP_cons_of_pos ha, List.countP_cons_of_pos hb, List.countP_nil]
      have hle : [a, b].countP f.named ≤ fields.countP f.named := hsublist.countP_le
      omega

/-- A choice is read from its own text and from any text that presents it, and the session that
starts with it has its locales in their order and its current one. An object without one of the two
names, or with one of them twice, is refused. -/
theorem presented_and_read (choice : LocaleChoice) :
    choice.tree.WrittenAs choice.toJson ∧ choice.Presents choice.tree ∧
    ofJson choice.toJson = .ok choice ∧
    (∀ t text, choice.Presents t → t.WrittenAs text → ofJson text = .ok choice) ∧
    ((Session.start choice).run [.supported, .currentLocale]).1.map (·.1.answer) =
      [.locales choice.supported, .locale choice.current] ∧
    ∀ fields text, (Tree.object fields none).WrittenAs text → ∀ f : Field,
      ((∀ field ∈ fields, ¬ field.1.Says f.name) ∨
        ∃ a b, [a, b].Sublist fields ∧ a.1.Says f.name ∧ b.1.Says f.name) →
      ∃ e, ofJson text = .error e := by
  have hread : ∀ t text, choice.Presents t → t.WrittenAs text → ofJson text = .ok choice := by
    intro t text hpresents htext
    rw [ofJson, htext.readText, hpresents.ofTree htext.sound]
  exact ⟨writtenAs_toJson choice, presents_tree choice,
    hread _ _ (presents_tree choice) (writtenAs_toJson choice), hread, rfl,
    fun _ _ htext _ h => not_read htext h⟩

theorem presented_and_read_unknown :
    ofJson "\x7b\"current_locale\":\"b\",\"locales\":[\"a\"],\"x\":[0,null]\x7d" =
      .ok ⟨["a"], "b"⟩ ∧
    ∃ e, ofJson "\x7b\"locales\":[],\"locales\":[]\x7d" = .error e := by
  obtain ⟨-, -, -, hread, -, hrefused⟩ := presented_and_read ⟨["a"], "b"⟩
  have hkey (s : String) := Json.Quotation.writtenAs_ofText s
  have hmeans (s : String) := Json.Quotation.says_ofText s
  constructor
  · have hdigit : Json.IsDigits ['0'] :=
      ⟨List.cons_ne_nil _ _, List.forall_mem_singleton.mpr rfl⟩
    have hzero : Json.Numeral.WrittenAs ⟨false, ['0'], none, none⟩ ['0'] :=
      .intro hdigit (fun _ => rfl) .none .none
    have hlocales : (Tree.list [.ofText "a"] none).Writable :=
      Json.Tree.writable_list (List.forall_mem_singleton.mpr (Json.Tree.writable_ofText "a"))
    have hother : (Tree.list [.number (.ok ⟨false, ['0'], none, none⟩), .null] none).Writable := by
      simp only [Tree.Writable, Tree.tokens, Tree.itemTokens, List.forall_mem_cons,
        List.forall_mem_append]
      exact ⟨.beginList, ⟨.number hzero, List.forall_mem_nil _⟩, .comma,
        ⟨.null, List.forall_mem_nil _⟩, .endList, List.forall_mem_nil _⟩
    have hpresents : Presents ⟨["a"], "b"⟩
        (.object [(.ofText "current_locale", .ofText "b"),
          (.ofText "locales", .list [.ofText "a"] none),
          (.ofText "x", .list [.number (.ok ⟨false, ['0'], none, none⟩), .null] none)] none) :=
      .object ⟨hmeans _, _, rfl, .cons ⟨_, rfl, hmeans "a"⟩ .nil⟩ ⟨hmeans _, _, rfl, hmeans "b"⟩
        (List.forall_mem_singleton.mpr ⟨"x", hmeans "x", fun f => by cases f <;> decide⟩)
        (.swap _ _ _)
    refine hread _ _ hpresents (Json.Tree.writtenAs_written ?_ (Json.Tree.writable_object ?_))
    · simp [Tree.Sound, Json.Tree.SoundFields, Json.Tree.SoundItems, Quotation.ofText, Tree.ofText]
    · simp only [List.forall_mem_cons]
      exact ⟨⟨hkey _, Json.Tree.writable_ofText "b"⟩, ⟨hkey _, hlocales⟩, ⟨hkey _, hother⟩,
        List.forall_mem_nil _⟩
  · have hempty : (Tree.list [] none).Writable := Json.Tree.writable_list (List.forall_mem_nil _)
    refine hrefused [(.ofText "locales", .list [] none), (.ofText "locales", .list [] none)] _
      (Json.Tree.writtenAs_written ?_ (Json.Tree.writable_object ?_)) .locales
      (.inr ⟨_, _, .refl _, hmeans _, hmeans _⟩)
    · simp [Tree.Sound, Json.Tree.SoundFields, Json.Tree.SoundItems, Quotation.ofText]
    · simp only [List.forall_mem_cons]
      exact ⟨⟨hkey _, hempty⟩, ⟨hkey _, hempty⟩, List.forall_mem_nil _⟩

end Phrasebook.LocaleChoice
