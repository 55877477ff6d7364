import Clausal.Proofs.Archive
import Clausal.Proofs.Walk

/-!
# Clauses and their texts

What can be read of the text of a clause again.  A literal that was read is trimmed and has no separator in it
(`Literal.Spelled`), so its name is read as the same literal.  In the name of a clause a separator might be found too
early, or the text might seem to begin or end with one.  Where none of this is so (`LiteralSet.Legible`), the name of a
clause is read as the same set of literals (`LiteralSet.Legible.parseLiterals_name`).  It takes an atom that is `v`,
begins with `v` and a space or ends with a space and `v` to make a name illegible (`LiteralSet.legible_of_plain`).
-/

namespace Clausal

/-! ## Trimming -/

namespace Text

variable {text : List Char}

/-- There is no blank at either end. -/
def Trimmed (text : List Char) : Prop :=
  (∀ c ∈ text.head?, isBlank c = false) ∧ ∀ c ∈ text.getLast?, isBlank c = false

instance (text : List Char) : Decidable (Trimmed text) :=
  @instDecidableAnd _ _ (Option.decidableForallMem text.head?) (Option.decidableForallMem text.getLast?)

theorem dropWhile_eq_self (h : ∀ c ∈ text.head?, isBlank c = false) : text.dropWhile isBlank = text := by
  cases text with
  | nil => rfl
  | cons c rest => rw [List.dropWhile_cons_of_neg (by simp [h c rfl])]

theorem trim_eq_self (h : Trimmed text) : trim text = text := by
  unfold trim trimEnd
  rw [dropWhile_eq_self h.1, dropWhile_eq_self, List.reverse_reverse]
  rw [List.head?_reverse]
  exact h.2

theorem head?_dropWhile (text : List Char) : ∀ c ∈ (text.dropWhile isBlank).head?, isBlank c = false := by
  intro c hc
  have := List.head?_dropWhile_not isBlank text
  rw [hc] at this
  simpa using this

theorem isPrefix_trimEnd (text : List Char) : trimEnd text <+: text := by
  have h := (List.dropWhile_suffix isBlank (l := text.reverse)).reverse
  rwa [List.reverse_reverse] at h

theorem trim_infix (text : List Char) : trim text <:+: text :=
  (isPrefix_trimEnd _).isInfix.trans (List.dropWhile_suffix isBlank).isInfix

theorem trimmed_trim (text : List Char) : Trimmed (trim text) := by
  constructor
  · -- what is left at the beginning stays there
    intro c hc
    obtain ⟨rest, hrest⟩ := isPrefix_trimEnd (text.dropWhile isBlank)
    refine head?_dropWhile text c ?_
    rw [← hrest, List.head?_append, show trimEnd (text.dropWhile isBlank) = trim text from rfl, hc]
    rfl
  · intro c hc
    unfold trim trimEnd at hc
    rw [List.getLast?_reverse] at hc
    exact head?_dropWhile _ c hc

end Text

/-! ## Literals that were read -/

namespace Literal

variable {l : Literal} {text : List Char}

/-- The literal can have been read: its atom is trimmed and has no separator in it, and what has no negation mark
does not begin with one. -/
structure Spelled (l : Literal) : Prop where
  nonempty : l.atom.toList ≠ []
  trimmed : Text.Trimmed l.atom.toList
  whole : ¬[' ', 'v', ' '] <:+: l.atom.toList
  sign : l.negated = false → l.atom.toList.head? ≠ some negation

theorem ofTrimmed_negation (text : List Char) : ofTrimmed (negation :: text) =
    if (Text.trim text).isEmpty then .error (.emptyAtom (String.ofList (negation :: text)))
    else .ok ⟨String.ofList (Text.trim text), true⟩ := by
  simp [ofTrimmed]

theorem ofTrimmed_of_ne (h : text.head? ≠ some negation) : ofTrimmed text =
    if text.isEmpty then .error (.emptyAtom (String.ofList text)) else .ok ⟨String.ofList text, false⟩ := by
  cases text with
  | nil => rfl
  | cons c rest =>
    have hc : c ≠ negation := fun hc => h (by simp [hc])
    simp [ofTrimmed, hc]

/-- What a literal that was read was read from. -/
theorem ofTrimmed_cases (h : ofTrimmed text = .ok l) :
    (∃ rest, text = negation :: rest ∧ Text.trim rest ≠ [] ∧ l = ⟨String.ofList (Text.trim rest), true⟩) ∨
      text.head? ≠ some negation ∧ text ≠ [] ∧ l = ⟨String.ofList text, false⟩ := by
  by_cases hneg : text.head? = some negation
  · obtain ⟨rest, rfl⟩ := List.head?_eq_some_iff.1 hneg
    rw [ofTrimmed_negation] at h
    split at h
    · cases h
    · rename_i hempty
      cases h
      exact .inl ⟨rest, rfl, by simpa using hempty, rfl⟩
  · rw [ofTrimmed_of_ne hneg] at h
    split at h
    · cases h
    · rename_i hempty
      cases h
      exact .inr ⟨hneg, by simpa using hempty, rfl⟩

theorem spelled_of_ofTrimmed (htrim : Text.Trimmed text) (hwhole : ¬[' ', 'v', ' '] <:+: text)
    (h : ofTrimmed text = .ok l) : l.Spelled := by
  rcases ofTrimmed_cases h with ⟨rest, rfl, hne, rfl⟩ | ⟨hhead, hne, rfl⟩
  · refine ⟨?_, ?_, ?_, by simp⟩ <;> rw [String.toList_ofList]
    · exact hne
    · exact Text.trimmed_trim rest
    · exact fun hin => hwhole (hin.trans ((Text.trim_infix rest).trans (List.suffix_cons _ _).isInfix))
  · refine ⟨?_, ?_, ?_, fun _ => ?_⟩ <;> rw [String.toList_ofList]
    · exact hne
    · exact htrim
    · exact hwhole
    · exact hhead

theorem toList_name_of_negated (h : l.negated = true) : l.name.toList = negation :: l.atom.toList := by
  simp [name, h]

theorem toList_name_of_positive (h : l.negated = false) : l.name.toList = l.atom.toList := by
  simp [name, h]

theorem Spelled.trimmed_name (h : l.Spelled) : Text.Trimmed l.name.toList := by
  cases hl : l.negated with
  | true =>
    rw [toList_name_of_negated hl]
    refine ⟨by simp [negation, Text.isBlank], fun c hc => h.trimmed.2 c ?_⟩
    rwa [List.getLast?_cons_of_ne_nil h.nonempty] at hc
  | false =>
    rw [toList_name_of_positive hl]
    exact h.trimmed

/-- **The name of a literal is read as the literal.** -/
theorem parse_name (h : l.Spelled) : parse l.name.toList = .ok l := by
  have hne : ¬l.atom.toList.isEmpty = true := by simpa using h.nonempty
  rw [parse, Text.trim_eq_self h.trimmed_name]
  cases hl : l.negated with
  | true =>
    rw [toList_name_of_negated hl, ofTrimmed_negation, Text.trim_eq_self h.trimmed, if_neg hne]
    simp [← hl]
  | false =>
    rw [toList_name_of_positive hl, ofTrimmed_of_ne (h.sign hl), if_neg hne]
    simp [← hl]

theorem Spelled.name_ne_nil (h : l.Spelled) : l.name.toList ≠ [] := by
  cases hl : l.negated with
  | true =>
    rw [toList_name_of_negated hl]
    exact List.cons_ne_nil _ _
  | false =>
    rw [toList_name_of_positive hl]
    exact h.nonempty

theorem Spelled.whole_name (h : l.Spelled) : ¬[' ', 'v', ' '] <:+: l.name.toList := by
  cases hl : l.negated with
  | true =>
    rw [toList_name_of_negated hl, List.infix_cons_iff, not_or]
    exact ⟨by simp [negation], h.whole⟩
  | false =>
    rw [toList_name_of_positive hl]
    exact h.whole

/-- The atom does not look like a separator at one of its ends. -/
structure Plain (l : Literal) : Prop where
  ne : l.atom ≠ "v"
  opening : ¬['v', ' '] <+: l.atom.toList
  closing : ¬[' ', 'v'] <:+ l.atom.toList

theorem Plain.toList_ne (h : l.Plain) : l.atom.toList ≠ ['v'] := fun hv => h.ne (String.toList_inj.1 hv)

theorem Plain.opening_name (h : l.Plain) : ¬['v', ' '] <+: l.name.toList ++ [' '] := by
  cases hl : l.negated with
  | true =>
    rw [toList_name_of_negated hl]
    simp [negation]
  | false =>
    rw [toList_name_of_positive hl, List.prefix_concat_iff, not_or]
    refine ⟨fun heq => h.toList_ne ?_, h.opening⟩
    have happend : ['v'] ++ [' '] = l.atom.toList ++ [' '] := heq
    exact (List.append_cancel_right happend).symm

theorem Plain.closing_name (h : l.Plain) : ¬[' ', 'v'] <:+ ' ' :: l.name.toList := by
  cases hl : l.negated with
  | true =>
    rw [toList_name_of_negated hl, List.suffix_cons_iff, List.suffix_cons_iff, not_or, not_or]
    exact ⟨by simp [negation], by simp [negation], h.closing⟩
  | false =>
    rw [toList_name_of_positive hl, List.suffix_cons_iff, not_or]
    exact ⟨fun heq => h.toList_ne (List.cons.inj heq).2.symm, h.closing⟩

end Literal

/-! ## Parts between separators -/

namespace Clause

variable {text p rest : List Char}

theorem split_cons {c : Char} {part : List Char} {parts : List (List Char)} (h : ¬[' ', 'v', ' '] <+: c :: rest)
    (hrest : split rest = part :: parts) : split (c :: rest) = (c :: part) :: parts := by
  rw [split, hrest]
  rintro rest' rfl rfl
  exact h ⟨rest', rfl⟩

theorem split_separator (rest : List Char) : split (' ' :: 'v' :: ' ' :: rest) = [] :: split rest := by
  rw [split]

theorem isPrefix_head_split (text : List Char) : ∀ p ∈ (split text).head?, p <+: text := by
  fun_induction split text with
  | case1 => simp
  | case2 rest ih => simp
  | case3 c rest hsep hnil ih => simp
  | case4 c rest hsep part parts hsplit ih =>
    intro p hp
    obtain rfl : c :: part = p := by simpa using hp
    exact (List.prefix_cons_inj c).2 (ih part (by simp [hsplit]))

/-- Separators are found from the left, so none is left in a part. -/
theorem not_infix_of_mem_split (hp : p ∈ split text) : ¬[' ', 'v', ' '] <:+: p := by
  fun_induction split text generalizing p with
  | case1 =>
    rw [List.mem_singleton.1 hp]
    simp
  | case2 rest ih =>
    rcases List.mem_cons.1 hp with rfl | hp
    · simp
    · exact ih hp
  | case3 c rest hsep hnil ih => exact absurd hnil (split_ne_nil rest)
  | case4 c rest hsep part parts hsplit ih =>
    rcases List.mem_cons.1 hp with rfl | hp
    · rw [List.infix_cons_iff]
      rintro (hpre | hin)
      · -- the part is the beginning of the rest, which would have been split here
        have hpart := isPrefix_head_split rest part (by simp [hsplit])
        obtain ⟨tail, ht⟩ := hpre.trans ((List.prefix_cons_inj c).2 hpart)
        cases ht
        exact hsep _ rfl rfl
      · exact ih (by simp [hsplit]) hin
    · exact ih (by simp [hsplit, hp])

theorem split_whole (h : ¬[' ', 'v', ' '] <:+: p) : split p = [p] := by
  induction p with
  | nil => rfl
  | cons c p ih =>
    rw [List.infix_cons_iff, not_or] at h
    exact split_cons h.1 (ih h.2)

theorem split_append (rest : List Char) (h : ¬[' ', 'v', ' '] <:+: p ++ [' ']) :
    split (p ++ ' ' :: 'v' :: ' ' :: rest) = p :: split rest := by
  induction p with
  | nil => exact split_separator rest
  | cons c p ih =>
    rw [List.cons_append, List.infix_cons_iff, not_or] at h
    have hfirst : ¬[' ', 'v', ' '] <+: c :: (p ++ ' ' :: 'v' :: ' ' :: rest) := by
      intro hpre
      cases p with
      | nil => simp at hpre
      | cons b p =>
        refine h.1 (List.prefix_of_prefix_length_le hpre ⟨'v' :: ' ' :: rest, by simp⟩ ?_)
        simp
    exact split_cons hfirst (ih h.2)

/-- A trimmed text that can stand before a separator: none is in it or begins at its end. -/
structure Part (p : List Char) : Prop where
  nonempty : p ≠ []
  trimmed : Text.Trimmed p
  whole : ¬[' ', 'v', ' '] <:+: p
  closing : ¬[' ', 'v'] <:+ p

theorem Part.not_infix (h : Part p) : ¬[' ', 'v', ' '] <:+: p ++ [' '] := by
  rw [List.infix_concat_iff, not_or]
  refine ⟨fun hsuf => h.closing ?_, h.whole⟩
  rw [show [' ', 'v', ' '] = [' ', 'v'] ++ [' '] from rfl] at hsuf
  exact ((List.suffix_append_inj_of_length_eq rfl).1 hsuf).1

/-- The texts with separators between them. -/
def joined (ps : List (List Char)) : List Char := [' ', 'v', ' '].intercalate ps

theorem joined_singleton (p : List Char) : joined [p] = p := List.intercalate_singleton ..

theorem joined_cons_cons (p q : List Char) (ps : List (List Char)) :
    joined (p :: q :: ps) = p ++ ' ' :: 'v' :: ' ' :: joined (q :: ps) := by
  simp [joined, List.intercalate_cons_cons]

/-- Texts are found again between the separators, if none of them shows one before a space. -/
theorem split_joined_of_not_infix {ps : List (List Char)} (hne : ps ≠ [])
    (h : ∀ p ∈ ps, ¬[' ', 'v', ' '] <:+: p ++ [' ']) : split (joined ps) = ps := by
  induction ps with
  | nil => exact absurd rfl hne
  | cons p ps ih =>
    have hp := h p (by simp)
    cases ps with
    | nil =>
      rw [joined_singleton]
      exact split_whole fun hin => hp (hin.trans (List.prefix_append _ _).isInfix)
    | cons q ps =>
      rw [joined_cons_cons, split_append _ hp, ih (by simp) fun r hr => h r (by simp [hr])]

theorem split_joined {ps : List (List Char)} (hne : ps ≠ []) (h : ∀ p ∈ ps, Part p) :
    split (joined ps) = ps := split_joined_of_not_infix hne fun p hp => Part.not_infix (h p hp)

/-- Joined texts begin with one of them, and a space if this is not the only one. -/
theorem exists_head_joined {ps : List (List Char)} (hne : ps ≠ []) :
    ∃ p ∈ ps, joined ps = p ∨ ∃ t, joined ps = p ++ ' ' :: t := by
  cases ps with
  | nil => exact absurd rfl hne
  | cons p ps =>
    refine ⟨p, by simp, ?_⟩
    cases ps with
    | nil => exact .inl (joined_singleton p)
    | cons q ps => exact .inr ⟨_, joined_cons_cons p q ps⟩

theorem exists_last_joined {ps : List (List Char)} (hne : ps ≠ []) :
    ∃ p ∈ ps, joined ps = p ∨ ∃ t, joined ps = t ++ ' ' :: p := by
  induction ps with
  | nil => exact absurd rfl hne
  | cons p ps ih =>
    cases ps with
    | nil => exact ⟨p, by simp, .inl (joined_singleton p)⟩
    | cons q ps =>
      obtain ⟨r, hr, hjoined⟩ := ih (by simp)
      refine ⟨r, by simp [hr], .inr ?_⟩
      rw [joined_cons_cons]
      rcases hjoined with hjoined | ⟨t, hjoined⟩
      · exact ⟨p ++ [' ', 'v'], by simp [hjoined]⟩
      · exact ⟨p ++ ' ' :: 'v' :: ' ' :: t, by simp [hjoined]⟩

theorem trimmed_joined {ps : List (List Char)} (hne : ps ≠ []) (h : ∀ p ∈ ps, p ≠ [] ∧ Text.Trimmed p) :
    joined ps ≠ [] ∧ Text.Trimmed (joined ps) := by
  obtain ⟨p, hp, hhead⟩ := exists_head_joined hne
  obtain ⟨q, hq, hlast⟩ := exists_last_joined hne
  obtain ⟨hpne, hptrim⟩ := h p hp
  obtain ⟨hqne, hqtrim⟩ := h q hq
  have hfirst : (joined ps).head? = p.head? := by
    rcases hhead with heq | ⟨t, heq⟩
    · rw [heq]
    · rw [heq, List.head?_append_of_ne_nil _ hpne]
  have hend : (joined ps).getLast? = q.getLast? := by
    rcases hlast with heq | ⟨t, heq⟩
    · rw [heq]
    · rw [heq, List.getLast?_append, List.getLast?_cons_of_ne_nil hqne, List.getLast?_eq_some_getLast hqne]
      rfl
  refine ⟨fun hnil => ?_, hfirst ▸ hptrim.1, hend ▸ hqtrim.2⟩
  rw [hnil, List.head?_nil] at hfirst
  exact hpne (List.head?_eq_none_iff.1 hfirst.symm)

theorem isDangling_eq_false_iff : isDangling text = false ↔ ¬['v', ' '] <+: text ∧ ¬[' ', 'v'] <:+ text := by
  rw [isDangling, Bool.or_eq_false_iff, ← Bool.not_eq_true, ← Bool.not_eq_true, List.isPrefixOf_iff_prefix,
    List.isSuffixOf_iff_suffix]

/-- What it takes to read literals from a text. -/
theorem parseLiterals_eq_ok_iff {s : LiteralSet} : parseLiterals text = .ok s ↔
    Text.trim text ≠ [] ∧ isDangling (Text.trim text) = false ∧
      ∃ ls, (split text).mapM Literal.parse = .ok ls ∧ LiteralSet.ofList ls = s := by
  unfold parseLiterals
  dsimp only
  by_cases hempty : Text.trim text = []
  · simp [hempty]
  cases hdangling : isDangling (Text.trim text) with
  | true => simp [hempty]
  | false =>
    cases hmap : (split text).mapM Literal.parse with
    | error error => simp [hempty]
    | ok ls => simp [hempty]

theorem spelled_of_parseLiterals {s : LiteralSet} (h : parseLiterals text = .ok s) {l : Literal} (hl : l ∈ s) :
    l.Spelled := by
  obtain ⟨-, -, ls, hmap, rfl⟩ := parseLiterals_eq_ok_iff.1 h
  obtain ⟨p, hp, hparse⟩ := exists_arg_of_mapM hmap (LiteralSet.mem_ofList.1 hl)
  refine Literal.spelled_of_ofTrimmed (Text.trimmed_trim p) (fun hin => ?_) hparse
  exact not_infix_of_mem_split hp (hin.trans (Text.trim_infix p))

/-- Next to a space, what is left of a separator is seen at the beginning of a text. -/
theorem opening_of_append {t : List Char} (h : ['v', ' '] <+: p ++ ' ' :: t) : ['v', ' '] <+: p ++ [' '] := by
  cases p with
  | nil => simp at h
  | cons c p => exact List.prefix_of_prefix_length_le h ⟨t, by simp⟩ (by simp)

theorem closing_of_append {t : List Char} (h : [' ', 'v'] <:+ t ++ ' ' :: p) : [' ', 'v'] <:+ ' ' :: p := by
  cases p with
  | nil =>
    have hlast := h.getLast (by simp)
    simp at hlast
  | cons c p => exact List.suffix_of_suffix_length_le h (List.suffix_append _ _) (by simp)

end Clause

/-! ## Names of clauses -/

namespace LiteralSet

variable {s : LiteralSet}

/-- Nothing in the name of the set seems to be a separator but what is one: the name does not begin or end with
what is left of one, and no literal ends with what one begins with. -/
structure Legible (s : LiteralSet) : Prop where
  opening : ¬['v', ' '] <+: s.name.toList
  closing : ¬[' ', 'v'] <:+ s.name.toList
  inside : ∀ l ∈ s, ¬[' ', 'v'] <:+ l.name.toList

instance (s : LiteralSet) : Decidable s.Legible :=
  decidable_of_iff (¬['v', ' '] <+: s.name.toList ∧ ¬[' ', 'v'] <:+ s.name.toList ∧
    ∀ l ∈ s.toList, ¬[' ', 'v'] <:+ l.name.toList) ⟨fun h => ⟨h.1, h.2.1, h.2.2⟩, fun h => ⟨h.1, h.2, h.3⟩⟩

/-- The names of the literals, which the name of the set joins. -/
def spellings (s : LiteralSet) : List (List Char) := s.toList.map fun l => l.name.toList

theorem spellings_ne_nil (h : s ≠ .empty) : s.spellings ≠ [] :=
  fun hnil => h (toList_inj.1 (List.map_eq_nil_iff.1 hnil))

theorem toList_name (h : s ≠ .empty) : s.name.toList = Clause.joined s.spellings := by
  have hempty : ¬s.isEmpty = true := fun he => h (isEmpty_iff.1 he)
  rw [name, if_neg hempty, String.toList_intercalate, spellings, List.map_map]
  rfl

theorem forall_spellings {P : List Char → Prop} : (∀ p ∈ s.spellings, P p) ↔ ∀ l ∈ s, P l.name.toList :=
  List.forall_mem_map

theorem ofList_toList (s : LiteralSet) : ofList s.toList = s := by
  ext l
  rw [mem_ofList, mem_toList]

theorem trimmed_name (hne : s ≠ .empty) (h : ∀ l ∈ s, l.Spelled) :
    s.name.toList ≠ [] ∧ Text.Trimmed s.name.toList := by
  rw [toList_name hne]
  refine Clause.trimmed_joined (spellings_ne_nil hne) (forall_spellings.2 fun l hl => ?_)
  exact ⟨(h l hl).name_ne_nil, (h l hl).trimmed_name⟩

/-- **A legible name is read as its literals.** -/
theorem Legible.parseLiterals_name (hlegible : s.Legible) (hne : s ≠ .empty) (h : ∀ l ∈ s, l.Spelled) :
    Clause.parseLiterals s.name.toList = .ok s := by
  obtain ⟨hnil, htrim⟩ := trimmed_name hne h
  have hdangling := Clause.isDangling_eq_false_iff.2 ⟨hlegible.opening, hlegible.closing⟩
  have hparts : ∀ p ∈ s.spellings, Clause.Part p := forall_spellings.2 fun l hl =>
    ⟨(h l hl).name_ne_nil, (h l hl).trimmed_name, (h l hl).whole_name, hlegible.inside l hl⟩
  rw [Clause.parseLiterals_eq_ok_iff, Text.trim_eq_self htrim]
  refine ⟨hnil, hdangling, s.toList, ?_, ofList_toList s⟩
  rw [toList_name hne, Clause.split_joined (spellings_ne_nil hne) hparts]
  exact mapM_eq_ok_iff.2 (List.forall₂_map_left_iff.2 (List.forall₂_same.2 fun l hl => Literal.parse_name (h l hl)))

/-- A name is legible if each literal can stand at its beginning and at its end. -/
theorem legible_of_plain (hne : s ≠ .empty) (h : ∀ l ∈ s, l.Plain) : s.Legible := by
  have hnil := spellings_ne_nil hne
  refine ⟨fun hpre => ?_, fun hsuf => ?_, fun l hl hsuf => ?_⟩
  · obtain ⟨p, hp, hhead⟩ := Clause.exists_head_joined hnil
    obtain ⟨l, hl, rfl⟩ := List.mem_map.1 hp
    rw [toList_name hne] at hpre
    refine (h l hl).opening_name ?_
    rcases hhead with heq | ⟨t, heq⟩
    · exact (heq ▸ hpre).trans (List.prefix_append _ _)
    · exact Clause.opening_of_append (heq ▸ hpre)
  · obtain ⟨p, hp, hlast⟩ := Clause.exists_last_joined hnil
    obtain ⟨l, hl, rfl⟩ := List.mem_map.1 hp
    rw [toList_name hne] at hsuf
    refine (h l hl).closing_name ?_
    rcases hlast with heq | ⟨t, heq⟩
    · exact (heq ▸ hsuf).trans (List.suffix_cons _ _)
    · exact Clause.closing_of_append (heq ▸ hsuf)
  · exact (h l hl).closing_name (hsuf.trans (List.suffix_cons _ _))

end LiteralSet

/-! ## Knowledge bases -/

namespace Engine

/-- The literals of the sets can have been read. -/
def Spells (X : Set LiteralSet) : Prop := ∀ s ∈ X, ∀ l ∈ s, l.Spelled

theorem spells_add {e : Engine} (h : Spells e.knowledge.sets) (text : String) :
    Spells (e.add text).2.knowledge.sets := by
  unfold Engine.add
  cases hp : Clause.parse e.counter text with
  | error error => exact h
  | ok c =>
    rintro _ ⟨d, hd, rfl⟩ l hl
    rcases mem_knowledge_learn hd with hd | rfl
    · exact h _ ⟨d, hd, rfl⟩ l hl
    · obtain ⟨s, hread, rfl⟩ := Clause.parse_eq_ok_iff.1 hp
      exact Clause.spelled_of_parseLiterals hread hl

theorem Attained.spells {e : Engine} (h : e.Attained) : Spells e.knowledge.sets := by
  refine h.idle (invariant_of_sets ?_ (kept_of_sets ?_ fun text h => spells_add h text))
  · simp [Spells]
  · exact fun hsub h s hs => h s (hsub hs)

end Engine

end Clausal
