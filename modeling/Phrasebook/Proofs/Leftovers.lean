import Phrasebook.Proofs.Rendering

/-!
# What filling leaves

Whatever the values are, writing one of them over a token takes away that one
token and no other: two tokens never share a character, and one that lies before
or after the place stays whole (`occurrences_replaceFirst`). So each argument fills
one place of its name at most (`Template.count_le_count_fill`), and a name that stands
more often in a template than among the arguments still stands in the filled
text (`Template.token_infix_fill`), which is what the findings on repeated and
on unknown names warn of (`token_left`).
-/

namespace Phrasebook

-- ---------------------------------------------------------------------------
-- Occurrences
-- ---------------------------------------------------------------------------

/-- The number of places in a text where `old` begins. -/
def occurrences (old : List Char) : List Char → Nat
  | [] => 0
  | c :: rest =>
    if old.isPrefixOf (c :: rest) then occurrences old rest + 1 else occurrences old rest

theorem occurrences_cons_pos (h : old <+: c :: rest) :
    occurrences old (c :: rest) = occurrences old rest + 1 := by
  rw [occurrences, if_pos (List.isPrefixOf_iff_prefix.mpr h)]

theorem occurrences_cons_neg (h : ¬ old <+: c :: rest) :
    occurrences old (c :: rest) = occurrences old rest := by
  rw [occurrences, if_neg (mt List.isPrefixOf_iff_prefix.mp h)]

theorem infix_of_occurrences_pos (h : 0 < occurrences old s) : old <:+: s := by
  induction s with
  | nil => cases h
  | cons c rest ih =>
    by_cases hstart : old <+: c :: rest
    · exact hstart.isInfix
    · rw [occurrences_cons_neg hstart] at h
      exact List.infix_cons (ih h)

theorem occurrences_le_append (s t : List Char) : occurrences old t ≤ occurrences old (s ++ t) := by
  induction s with
  | nil => exact Nat.le_refl _
  | cons c s ih =>
    rw [List.cons_append, occurrences]
    split
    · exact Nat.le_succ_of_le ih
    · exact ih

theorem occurrences_token_skip (h : '{' ∉ s) :
    occurrences (token name) (s ++ t) = occurrences (token name) t := by
  induction s with
  | nil => rfl
  | cons c s ih =>
    rw [List.mem_cons, not_or] at h
    rw [List.cons_append, occurrences_cons_neg (not_begins_token (Ne.symm h.1)), ih h.2]

theorem occurrences_token_append (hname : Plain name) (hother : Plain other) :
    occurrences (token name) (token other ++ rest) =
      occurrences (token name) rest + if other = name then 1 else 0 := by
  have hopen : '{' ∉ other ++ ['}'] := by simpa using hother.open_notMem
  have htoken : token other ++ rest = '{' :: (other ++ ['}'] ++ rest) := rfl
  have hstart : token name <+: '{' :: (other ++ ['}'] ++ rest) ↔ other = name :=
    prefix_token_append_iff hname hother
  rw [htoken]
  split
  · next h => rw [occurrences_cons_pos (hstart.mpr h), occurrences_token_skip hopen]
  · next h => rw [occurrences_cons_neg (mt hstart.mp h), occurrences_token_skip hopen, Nat.add_zero]

theorem occurrences_replaceFirst (new : List Char) (hname : Plain name) (hother : Plain other)
    (s : List Char) :
    occurrences (token name) s ≤
      occurrences (token name) (replaceFirst (token other) new s) +
        if other = name then 1 else 0 := by
  induction s with
  | nil => exact Nat.zero_le _
  | cons c rest ih =>
    by_cases hhere : token other <+: c :: rest
    · obtain ⟨after, hs⟩ := hhere
      rw [← hs, replaceFirst_append (by simp [token]), occurrences_token_append hname hother]
      exact Nat.add_le_add_right (occurrences_le_append new after) _
    · rw [replaceFirst_cons hhere]
      by_cases hstart : token name <+: c :: rest
      · -- The token that begins here is of another name, so the place lies behind it.
        have hne : name ≠ other := fun h => hhere (h ▸ hstart)
        have hkept : token name <+: c :: replaceFirst (token other) new rest := by
          obtain ⟨after, hs⟩ := hstart
          rw [← replaceFirst_cons hhere, ← hs, replaceFirst_token_append hother hname hne]
          exact List.prefix_append ..
        rw [occurrences_cons_pos hstart, occurrences_cons_pos hkept, Nat.add_right_comm]
        exact Nat.succ_le_succ ih
      · rw [occurrences_cons_neg hstart]
        exact Nat.le_trans ih (Nat.add_le_add_right (occurrences_le_append [c] _) _)

theorem occurrences_foldl_fillOne {name : String} {entries : List (String × Value)}
    (hname : Plain name.toList) (hkeys : ∀ entry ∈ entries, Plain entry.1.toList)
    (s : List Char) :
    occurrences (token name.toList) s ≤
      occurrences (token name.toList) (entries.foldl Template.fillOne s) +
        (entries.map Prod.fst).count name := by
  induction entries generalizing s with
  | nil => exact Nat.le_refl _
  | cons entry entries ih =>
    obtain ⟨hkey, hkeys⟩ := List.forall_mem_cons.mp hkeys
    have hone := occurrences_replaceFirst entry.2.text.toList hname hkey s
    have hrest := ih hkeys (Template.fillOne s entry)
    have hcount : ((entry :: entries).map Prod.fst).count name =
        (entries.map Prod.fst).count name + if entry.1 = name then 1 else 0 := by
      simp [List.count_cons]
    rw [Template.fillOne] at hrest
    simp only [String.toList_inj] at hone
    rw [List.foldl_cons, hcount, Template.fillOne]
    omega

theorem Segment.count_scan (h : IsName name) (s : List Char) :
    (scan s).count (.placeholder name) = occurrences (token name) s := by
  induction s using scan_induction with
  | nil => simp [scan, occurrences]
  | token other rest hother ih =>
    rw [scan_token_append hother, occurrences_token_append h.2 hother.2, List.count_cons, ih]
    simp
  | literal c rest hc ih =>
    rw [scan_cons hc, occurrences_cons_neg (not_begins_of_opening? h hc),
      List.count_cons_of_ne (by simp), ih]

-- ---------------------------------------------------------------------------
-- Templates
-- ---------------------------------------------------------------------------

namespace Template

variable {t : Template} {arguments : Arguments} {name : String}

theorem isName_of_mem_placeholders (h : name ∈ t.placeholders) : IsName name.toList :=
  Segment.isName_of_mem_scan (mem_placeholders.mp h)

theorem count_placeholders (h : IsName name.toList) :
    t.placeholders.count name = occurrences (token name.toList) t.source.toList := by
  rw [← Segment.count_scan h, placeholders, segments, List.count_filterMap, List.count]
  refine List.countP_congr fun segment _ => ?_
  cases segment with
  | literal c => simp [Segment.name?]
  | placeholder other => simp [Segment.name?, ← String.toList_inj]

theorem occurrences_fill (t : Template) (hname : Plain name.toList)
    (hkeys : ∀ key ∈ arguments.names, Plain key.toList) :
    occurrences (token name.toList) t.source.toList ≤
      occurrences (token name.toList) (t.fill arguments).toList + arguments.names.count name := by
  have hentries : ∀ entry ∈ arguments.entries, Plain entry.1.toList := fun entry hentry =>
    hkeys entry.1 (List.mem_map_of_mem hentry)
  rw [fill, String.toList_ofList]
  exact occurrences_foldl_fillOne hname hentries t.source.toList

theorem token_infix_fill (hkeys : ∀ key ∈ arguments.names, Plain key.toList)
    (h : arguments.names.count name < t.placeholders.count name) :
    token name.toList <:+: (t.fill arguments).toList := by
  have hname : IsName name.toList :=
    isName_of_mem_placeholders (List.count_pos_iff.mp (Nat.zero_lt_of_lt h))
  have hleft := occurrences_fill t hname.2 hkeys
  rw [count_placeholders hname] at h
  exact infix_of_occurrences_pos (by omega)

/-- Whatever the values are, an argument fills one place of its name at most, and no place of
another name. -/
theorem count_le_count_fill (t : Template) (hkeys : ∀ key ∈ arguments.names, Plain key.toList)
    (name : String) :
    t.placeholders.count name ≤
      (Template.mk (t.fill arguments)).placeholders.count name +
        if name ∈ arguments.names then 1 else 0 := by
  by_cases hname : IsName name.toList
  · have hleft := occurrences_fill t hname.2 hkeys
    rw [Arguments.count_names] at hleft
    rw [count_placeholders hname, count_placeholders hname]
    exact hleft
  · have habsent : name ∉ t.placeholders := mt isName_of_mem_placeholders hname
    simp [List.count_eq_zero.mpr habsent]

/-- The value of the first argument makes a second token of the other name with the braces
around it. -/
theorem count_le_count_fill_fused :
    let t : Template := ⟨"\x7b\x7ba\x7d\x7bb\x7d\x7ba\x7d"⟩
    let arguments : Arguments := .ofList [("a", .string "b\x7d"), ("b", .string "")]
    (∀ key ∈ arguments.names, Plain key.toList) ∧
      t.fill arguments = "\x7bb\x7d\x7ba\x7d" ∧
      t.placeholders = ["a", "b", "a"] ∧
      t.placeholders.count "a" ≤ (Template.mk (t.fill arguments)).placeholders.count "a" + 1 := by
  intro t arguments
  have hkeys : ∀ key ∈ arguments.names, Plain key.toList := by decide +kernel
  have hfill : t.fill arguments = "\x7bb\x7d\x7ba\x7d" := by decide +kernel
  have hnames : t.placeholders = ["a", "b", "a"] := by decide +kernel
  have hleft := count_le_count_fill t hkeys "a"
  have hkey : "a" ∈ arguments.names := by decide +kernel
  rw [if_pos hkey] at hleft
  exact ⟨hkeys, hfill, hnames, hleft⟩

end Template

-- ---------------------------------------------------------------------------
-- Phrases
-- ---------------------------------------------------------------------------

namespace Phrase

variable {phrase : Phrase} {supported : List Locale} {locale : Locale} {arguments : Arguments}
  {origin : Origin} {template : Template} {name : String}

theorem Selects.eq_of_source {translations : Translations} {t : Template}
    (hs : phrase.Selects locale arguments origin template)
    (hsource : phrase.source? origin = some translations)
    (ht : translations.get? locale = some t) : t = template := by
  obtain ⟨_, hsource', ht'⟩ := hs.source
  cases hsource.symm.trans hsource'
  exact Option.some.inj (ht.symm.trans ht')

/-- Where a template with a finding on a repeated name is rendered, a token of the name is
left, whatever the values are. The same holds of an unknown name that is no argument. -/
theorem token_left
    (hkeys : ∀ key ∈ arguments.names, Plain key.toList)
    (hs : phrase.Selects locale arguments origin template)
    (hf : .repeated locale origin name ∈ phrase.findings supported ∨
      .unknown locale origin name ∈ phrase.findings supported ∧ name ∉ arguments.names) :
    (phrase.renderIn locale arguments).outcome = .text (template.fill arguments) ∧
      token name.toList <:+: (template.fill arguments).toList := by
  obtain ⟨asked, hrenders⟩ := hs.renders
  refine ⟨(renderIn_of_renders hrenders).1, Template.token_infix_fill hkeys ?_⟩
  rcases hf with hrepeated | ⟨hunknown, habsent⟩
  · obtain ⟨_, _, hsource, ht, hcount⟩ := repeated_mem_findings.mp hrepeated
    obtain rfl := hs.eq_of_source hsource ht
    exact Nat.lt_of_le_of_lt (List.nodup_iff_count.mp arguments.distinct name) hcount
  · obtain ⟨-, _, _, _, hsource, ht, -, hname, -⟩ := unknown_mem_findings.mp hunknown
    obtain rfl := hs.eq_of_source hsource ht
    rw [List.count_eq_zero.mpr habsent]
    exact List.count_pos_iff.mpr hname

theorem token_left_braces :
    let t : Template := ⟨"\x7bn\x7d\x7bx\x7d\x7bn\x7d"⟩
    let u : Template := ⟨"\x7bn\x7d\x7bwho\x7d\x7bx\x7d"⟩
    let phrase : Phrase :=
      ⟨.ofList [("en", t)], [⟨(Condition.has "x").guard, .ofList [("en", u)]⟩]⟩
    let few : Arguments := .ofList [("n", .string "\x7b")]
    let more : Arguments := .ofList [("n", .string "\x7b"), ("x", .string "\x7d")]
    .repeated "en" .base "n" ∈ phrase.findings ["en"] ∧
      (phrase.renderIn "en" few).outcome = .text "\x7b\x7bx\x7d\x7bn\x7d" ∧
      token "n".toList <:+: "\x7b\x7bx\x7d\x7bn\x7d".toList ∧
      .unknown "en" (.variant 0) "who" ∈ phrase.findings ["en"] ∧
      (phrase.renderIn "en" more).outcome = .text "\x7b\x7bwho\x7d\x7d" ∧
      token "who".toList <:+: "\x7b\x7bwho\x7d\x7d".toList := by
  intro t u phrase few more
  have hrepeated : .repeated "en" .base "n" ∈ phrase.findings ["en"] := by decide +kernel
  have hunknown : .unknown "en" (.variant 0) "who" ∈ phrase.findings ["en"] := by decide +kernel
  have hget : phrase.base.get? "en" = some t := by decide +kernel
  have hbase : phrase.Selects "en" few .base t := by
    have hguard : (Condition.has "x").guard few = .fails := by decide +kernel
    exact .base hget (by simp [phrase, Variant.PassedOver, hguard])
  have hvariant : phrase.Selects "en" more (.variant 0) u := by
    have hvariants : phrase.variants = [] ++ phrase.variants := rfl
    exact .variant hget hvariants nofun ⟨by decide +kernel, by decide +kernel⟩
  have hfew : ∀ key ∈ few.names, Plain key.toList := by decide +kernel
  have hmore : ∀ key ∈ more.names, Plain key.toList := by decide +kernel
  have hfill : t.fill few = "\x7b\x7bx\x7d\x7bn\x7d" := by decide +kernel
  have hfill' : u.fill more = "\x7b\x7bwho\x7d\x7d" := by decide +kernel
  obtain ⟨hout, htoken⟩ := token_left hfew hbase (.inl hrepeated)
  obtain ⟨hout', htoken'⟩ := token_left hmore hvariant (.inr ⟨hunknown, by decide +kernel⟩)
  rw [hfill] at hout htoken
  rw [hfill'] at hout' htoken'
  exact ⟨hrepeated, hout, htoken, hunknown, hout', htoken'⟩

end Phrase

end Phrasebook
