import Clausal.Proofs.Spelling

/-!
# Ways to write a clause

A literal can be written with blanks on both sides and between its negation mark and its atom, and the literals of a
clause can be written in any order and more than once.  Blanks may stand beside a letter `v`, so the text of a clause
has to be searched for separators that nobody wrote.  There are none: each of them would show in an atom.

* `Literal.Renders l text`: the text is a way to write the literal;
* `Text.Solid text`: the ends of the text are no part of a separator, whatever stands before and after it;
* `Text.not_infix_padded`: blanks around such a text make no separator;
* `Text.Padded.append`: texts with blanks around them stay so when they are joined;
* `Clause.parse_of_renders`: all ways to write a clause are read as the clause.
-/

namespace Clausal

/-! ## Blanks around a text -/

namespace Text

variable {before after text more : List Char}

/-- There are only blanks in the text. -/
def Blank (text : List Char) : Prop := ∀ c ∈ text, isBlank c = true

instance (text : List Char) : Decidable (Blank text) := List.decidableBAll (isBlank · = true) text

theorem Blank.append (h : Blank before) (h' : Blank after) : Blank (before ++ after) := by
  intro c hc
  exact (List.mem_append.1 hc).elim (h c) (h' c)

/-- The letter of the separator is no blank. -/
theorem Blank.notMem (h : Blank text) : 'v' ∉ text := by
  intro hv
  exact absurd (h 'v' hv) (by decide)

theorem dropWhile_blank_append (h : Blank before) (text : List Char) :
    (before ++ text).dropWhile isBlank = text.dropWhile isBlank := List.dropWhile_append_of_pos h

theorem trim_padded (hbefore : Blank before) (hafter : Blank after) (hne : text ≠ []) (htrim : Trimmed text) :
    trim (before ++ text ++ after) = text := by
  have hfront : (before ++ text ++ after).dropWhile isBlank = text ++ after := by
    rw [List.append_assoc, dropWhile_blank_append hbefore, dropWhile_eq_self]
    rw [List.head?_append_of_ne_nil _ hne]
    exact htrim.1
  have hblank : Blank after.reverse := fun c hc => hafter c (List.mem_reverse.1 hc)
  have hback : (text ++ after).reverse.dropWhile isBlank = text.reverse := by
    rw [List.reverse_append, dropWhile_blank_append hblank, dropWhile_eq_self]
    rw [List.head?_reverse]
    exact htrim.2
  rw [trim, trimEnd, hfront, hback, List.reverse_reverse]

/-! ## Solid texts -/

/-- There is no blank at either end of the text, and its ends are no part of a separator, whatever stands before and
after it. -/
structure Solid (text : List Char) : Prop where
  nonempty : text ≠ []
  trimmed : Trimmed text
  opening : ∀ more, ¬['v', ' '] <+: text ++ more
  closing : ∀ more, ¬[' ', 'v'] <:+ more ++ text

theorem Solid.append {text' : List Char} (h : Solid text) (middle : List Char) (h' : Solid text') :
    Solid (text ++ middle ++ text') := by
  refine ⟨?_, ⟨?_, ?_⟩, fun more hpre => ?_, fun more hsuf => ?_⟩
  · simp [h.nonempty]
  · rw [List.append_assoc, List.head?_append_of_ne_nil _ h.nonempty]
    exact h.trimmed.1
  · rw [List.getLast?_append_of_ne_nil _ h'.nonempty]
    exact h'.trimmed.2
  · rw [List.append_assoc, List.append_assoc] at hpre
    exact h.opening _ hpre
  · rw [← List.append_assoc] at hsuf
    exact h'.closing _ hsuf

/-- A separator that ends among the blanks behind a text begins before them. -/
theorem not_infix_append_blank (h : Solid text) (hwhole : ¬[' ', 'v', ' '] <:+: text) (hafter : Blank after) :
    ¬[' ', 'v', ' '] <:+: text ++ after := by
  induction after using List.reverseRecOn with
  | nil => rwa [List.append_nil]
  | append_singleton after c ih =>
    have hblank : Blank after := fun b hb => hafter b (List.mem_append_left _ hb)
    rw [← List.append_assoc, List.infix_concat_iff, not_or]
    refine ⟨fun hsuf => ?_, ih hblank⟩
    rw [show [' ', 'v', ' '] = [' ', 'v'] ++ [' '] from rfl] at hsuf
    obtain ⟨hend, -⟩ := (List.suffix_append_inj_of_length_eq (show [' '].length = [c].length from rfl)).1 hsuf
    rcases after.eq_nil_or_concat with rfl | ⟨rest, b, rfl⟩
    · exact h.closing [] (by simpa using hend)
    · -- the letter would be one of the blanks
      rw [List.concat_eq_append] at hend hblank
      obtain rfl : 'v' = b := by simpa using hend.getLast (by simp)
      exact hblank.notMem (by simp)

/-- **Blanks make no separator.** -/
theorem not_infix_padded (h : Solid text) (hwhole : ¬[' ', 'v', ' '] <:+: text) (hbefore : Blank before)
    (hafter : Blank after) : ¬[' ', 'v', ' '] <:+: before ++ text ++ after := by
  induction before with
  | nil => exact not_infix_append_blank h hwhole hafter
  | cons c before ih =>
    have hblank : Blank before := fun b hb => hbefore b (List.mem_cons_of_mem _ hb)
    rw [List.cons_append, List.cons_append, List.infix_cons_iff, not_or]
    refine ⟨fun hpre => ?_, ih hblank⟩
    obtain ⟨-, hrest⟩ := List.cons_prefix_cons.1 hpre
    cases before with
    | nil => exact h.opening after hrest
    | cons b before =>
      obtain ⟨rfl, -⟩ := List.cons_prefix_cons.1 hrest
      exact hblank.notMem (by simp)

/-- A solid text with blanks around it. -/
def Padded (text : List Char) : Prop :=
  ∃ before body after, Blank before ∧ Solid body ∧ Blank after ∧ text = before ++ body ++ after

theorem Padded.append (h : Padded text) (middle : List Char) (h' : Padded more) : Padded (text ++ middle ++ more) := by
  obtain ⟨before, body, after, hbefore, hbody, hafter, rfl⟩ := h
  obtain ⟨before', body', after', hbefore', hbody', hafter', rfl⟩ := h'
  refine ⟨before, body ++ (after ++ middle ++ before') ++ body', after', hbefore, hbody.append _ hbody', hafter', ?_⟩
  simp

theorem Padded.solid_trim (h : Padded text) : Solid (trim text) := by
  obtain ⟨before, body, after, hbefore, hbody, hafter, rfl⟩ := h
  rwa [trim_padded hbefore hafter hbody.nonempty hbody.trimmed]

end Text

/-! ## Literals -/

namespace Literal

variable {l : Literal} {inner text : List Char}

/-- The literal as it is written with blanks between its negation mark and its atom. -/
def body (l : Literal) (inner : List Char) : List Char :=
  if l.negated then negation :: (inner ++ l.atom.toList) else l.atom.toList

/-- The text is a way to write the literal: blanks, the literal, blanks. -/
def Renders (l : Literal) (text : List Char) : Prop :=
  ∃ before inner after, Text.Blank before ∧ Text.Blank inner ∧ Text.Blank after ∧ text = before ++ l.body inner ++ after

theorem body_of_negated (h : l.negated = true) (inner : List Char) :
    l.body inner = negation :: (inner ++ l.atom.toList) := if_pos h

theorem body_of_positive (h : l.negated = false) (inner : List Char) : l.body inner = l.atom.toList :=
  if_neg (by simp [h])

theorem Plain.solid (h : l.Plain) (hl : l.Spelled) : Text.Solid l.atom.toList := by
  have hne := h.toList_ne
  refine ⟨hl.nonempty, hl.trimmed, fun more hpre => ?_, fun more hsuf => ?_⟩
  · -- an atom of one letter is not that of the separator, and a longer one does not begin with its end
    match hatom : l.atom.toList with
    | [] => exact hl.nonempty hatom
    | [c] =>
      rw [hatom] at hpre hne
      obtain ⟨rfl, -⟩ := List.cons_prefix_cons.1 hpre
      exact hne rfl
    | b :: c :: rest =>
      refine h.opening (List.prefix_of_prefix_length_le hpre (List.prefix_append _ _) ?_)
      simp [hatom]
  · rcases l.atom.toList.eq_nil_or_concat with hnil | ⟨rest, c, hatom⟩
    · exact hl.nonempty hnil
    · rw [List.concat_eq_append] at hatom
      rcases rest.eq_nil_or_concat with rfl | ⟨rest, b, rfl⟩
      · rw [hatom] at hsuf hne
        have hlast := hsuf.getLast (by simp)
        exact hne (by simpa using hlast.symm)
      · refine h.closing (List.suffix_of_suffix_length_le hsuf (List.suffix_append _ _) ?_)
        simp [hatom]

theorem solid_body (h : l.Plain) (hl : l.Spelled) (inner : List Char) : Text.Solid (l.body inner) := by
  have hatom := h.solid hl
  cases hneg : l.negated with
  | false => rwa [body_of_positive hneg]
  | true =>
    rw [body_of_negated hneg]
    refine ⟨List.cons_ne_nil _ _, ⟨by simp [negation, Text.isBlank], ?_⟩, fun more hpre => ?_, fun more hsuf => ?_⟩
    · rw [← List.cons_append, List.getLast?_append_of_ne_nil _ hatom.nonempty]
      exact hatom.trimmed.2
    · simp [negation] at hpre
    · rw [← List.cons_append, ← List.append_assoc] at hsuf
      exact hatom.closing _ hsuf

theorem whole_body (h : l.Plain) (hl : l.Spelled) (hinner : Text.Blank inner) :
    ¬[' ', 'v', ' '] <:+: l.body inner := by
  cases hneg : l.negated with
  | false =>
    rw [body_of_positive hneg]
    exact hl.whole
  | true =>
    have hin : ¬[' ', 'v', ' '] <:+: inner ++ l.atom.toList ++ [] :=
      Text.not_infix_padded (h.solid hl) hl.whole hinner (List.forall_mem_nil _)
    rw [List.append_nil] at hin
    rw [body_of_negated hneg, List.infix_cons_iff, not_or]
    exact ⟨by simp [negation], hin⟩

theorem Renders.padded (h : l.Renders text) (hplain : l.Plain) (hl : l.Spelled) : Text.Padded text := by
  obtain ⟨before, inner, after, hbefore, -, hafter, rfl⟩ := h
  exact ⟨before, _, after, hbefore, solid_body hplain hl inner, hafter, rfl⟩

theorem Renders.not_infix (h : l.Renders text) (hplain : l.Plain) (hl : l.Spelled) :
    ¬[' ', 'v', ' '] <:+: text ++ [' '] := by
  obtain ⟨before, inner, after, hbefore, hinner, hafter, rfl⟩ := h
  rw [List.append_assoc]
  exact Text.not_infix_padded (solid_body hplain hl inner) (whole_body hplain hl hinner) hbefore
    (hafter.append (List.forall_mem_singleton.2 rfl))

/-- **All ways to write a literal are read as the literal.** -/
theorem Renders.parse (h : l.Renders text) (hplain : l.Plain) (hl : l.Spelled) : parse text = .ok l := by
  obtain ⟨before, inner, after, hbefore, hinner, hafter, rfl⟩ := h
  have hbody := solid_body hplain hl inner
  have hne : ¬l.atom.toList.isEmpty = true := by simpa using hl.nonempty
  rw [Literal.parse, Text.trim_padded hbefore hafter hbody.nonempty hbody.trimmed]
  cases hneg : l.negated with
  | false =>
    rw [body_of_positive hneg, ofTrimmed_of_ne (hl.sign hneg), if_neg hne]
    simp [← hneg]
  | true =>
    have hatom : Text.trim (inner ++ l.atom.toList ++ []) = l.atom.toList :=
      Text.trim_padded hinner (List.forall_mem_nil _) hl.nonempty hl.trimmed
    rw [List.append_nil] at hatom
    rw [body_of_negated hneg, ofTrimmed_negation, hatom, if_neg hne]
    simp [← hneg]

end Literal

/-! ## Clauses -/

namespace Clause

theorem padded_joined {ps : List (List Char)} (hne : ps ≠ []) (h : ∀ p ∈ ps, Text.Padded p) :
    Text.Padded (joined ps) := by
  induction ps with
  | nil => exact absurd rfl hne
  | cons p ps ih =>
    have hp := h p (by simp)
    cases ps with
    | nil => rwa [joined_singleton]
    | cons q ps =>
      have hrest := ih (by simp) fun r hr => h r (by simp [hr])
      rw [joined_cons_cons]
      simpa using hp.append [' ', 'v', ' '] hrest

theorem parseLiterals_joined {ls : List Literal} {ps : List (List Char)} (hne : ps ≠ [])
    (hls : ∀ l ∈ ls, l.Spelled ∧ l.Plain) (h : List.Forall₂ Literal.Renders ls ps) :
    parseLiterals (joined ps) = .ok (.ofList ls) := by
  have hall := (List.forall₂_and_left ls ps).2 ⟨hls, h⟩
  have hparts : ∀ p ∈ ps, ∃ l ∈ ls, (l.Spelled ∧ l.Plain) ∧ l.Renders p :=
    fun p hp => exists_left_of_forall₂ hall hp
  have hsolid : Text.Solid (Text.trim (joined ps)) := by
    refine (padded_joined hne fun p hp => ?_).solid_trim
    obtain ⟨l, -, ⟨hl, hplain⟩, hrenders⟩ := hparts p hp
    exact hrenders.padded hplain hl
  have hsplit : split (joined ps) = ps := by
    refine split_joined_of_not_infix hne fun p hp => ?_
    obtain ⟨l, -, ⟨hl, hplain⟩, hrenders⟩ := hparts p hp
    exact hrenders.not_infix hplain hl
  refine parseLiterals_eq_ok_iff.2 ⟨hsolid.nonempty, isDangling_eq_false_iff.2 ⟨?_, ?_⟩, ls, ?_, rfl⟩
  · simpa using hsolid.opening []
  · simpa using hsolid.closing []
  · rw [hsplit]
    refine mapM_eq_ok_iff.2 (hall.flip.imp fun p l hp => ?_)
    exact hp.2.parse hp.1.2 hp.1.1

/-- **All ways to write a clause are read as the clause.**  The literals may come in any order and more than once, each
with blanks around it and behind its negation mark. -/
theorem parse_of_renders {ls : List Literal} {parts : List String} (hne : ls ≠ [])
    (hls : ∀ l ∈ ls, l.Spelled ∧ l.Plain)
    (hparts : List.Forall₂ (fun l part => l.Renders part.toList) ls parts) (id : Int) :
    ∃ s, parse id (" v ".intercalate parts) = .ok { literals := s, id } ∧ ∀ l, l ∈ s ↔ l ∈ ls := by
  have htext : (" v ".intercalate parts).toList = joined (parts.map String.toList) := by
    rw [String.toList_intercalate]
    rfl
  have hpartsne : parts.map String.toList ≠ [] := by
    intro hnil
    rw [List.map_eq_nil_iff.1 hnil, List.forall₂_nil_right_iff] at hparts
    exact hne hparts
  refine ⟨.ofList ls, parse_eq_ok_iff.2 ⟨_, ?_, rfl⟩, fun l => LiteralSet.mem_ofList⟩
  rw [htext]
  exact parseLiterals_joined hpartsne hls (List.forall₂_map_right_iff.2 hparts)

/-- Atoms that begin and end with the letter of the separator, with tabs and wide spaces about. -/
theorem parse_of_renders_beside_blanks :
    let l : Literal := ⟨"a\tv", false⟩
    let m : Literal := ⟨"v\tb", true⟩
    let parts := ["\u2003a\tv ", "~ v\tb\n", " a\tv"]
    (∀ k ∈ [l, m, l], k.Spelled ∧ k.Plain) ∧
      List.Forall₂ (fun k part => k.Renders part.toList) [l, m, l] parts ∧
      ∃ s, parse 3 "\u2003a\tv  v ~ v\tb\n v  a\tv" = .ok { literals := s, id := 3 } ∧ l ∈ s ∧ m ∈ s := by
  intro l m parts
  have hl : l.Spelled ∧ l.Plain :=
    ⟨⟨by decide, by decide +kernel, by decide +kernel, by decide⟩, by decide, by decide, by decide⟩
  have hm : m.Spelled ∧ m.Plain :=
    ⟨⟨by decide, by decide +kernel, by decide +kernel, by decide⟩, by decide, by decide, by decide⟩
  have hls : ∀ k ∈ [l, m, l], k.Spelled ∧ k.Plain := by
    simp [hl, hm]
  have hparts : List.Forall₂ (fun k part => k.Renders part.toList) [l, m, l] parts := by
    refine .cons ⟨['\u2003'], [], [' '], ?_⟩ (.cons ⟨[], [' '], ['\n'], ?_⟩ (.cons ⟨[' '], [], [], ?_⟩ .nil))
    · decide +kernel
    · decide +kernel
    · decide +kernel
  obtain ⟨s, hparse, hmem⟩ := parse_of_renders (by simp) hls hparts 3
  exact ⟨hls, hparts, s, hparse, (hmem l).2 (by simp), (hmem m).2 (by simp)⟩

end Clause

end Clausal
