import Clausal.Proofs.Restoring

/-!
# Names that are read again

A clause is shown, and saved, as the names of its literals with separators between them, but not every text that can be
read is shown as a text that is read as the same.  The name of a clause is read as its literals exactly if it is legible
(`LiteralSet.parseLiterals_name_iff`), which the name of one literal always is (`LiteralSet.legible_singleton`), and a
knowledge base can be saved and restored exactly if all of its names are (`Engine.reads_again_iff_legible`).

That a name which is read as its literals must be legible is a matter of lengths.  What is read from a part is not
longer than the part (`Literal.name_sublist_of_parse`), and the parts and separators make up the text
(`Clause.joined_split`).  So the parts cannot be other texts than the names of the literals, and a separator would have
been found earlier in a part that ends with the beginning of one.
-/

namespace Clausal

/-! ## Parts and what is read from them -/

namespace Literal

variable {l : Literal} {text : List Char}

/-- The name of a literal is not longer than what it was read from. -/
theorem name_sublist_of_parse (h : parse text = .ok l) : l.name.toList.Sublist text := by
  refine List.Sublist.trans ?_ (Text.trim_infix text).sublist
  rcases ofTrimmed_cases h with ⟨rest, hrest, -, rfl⟩ | ⟨-, -, rfl⟩
  · rw [toList_name_of_negated rfl, String.toList_ofList, hrest]
    exact (Text.trim_infix rest).sublist.cons_cons negation
  · rw [toList_name_of_positive rfl, String.toList_ofList]

end Literal

namespace Clause

variable {text p : List Char} {ps qs : List (List Char)}

theorem joined_split (text : List Char) : joined (split text) = text := by
  fun_induction split text with
  | case1 => rfl
  | case2 rest ih =>
    obtain ⟨p, ps, hsplit⟩ := List.exists_cons_of_ne_nil (split_ne_nil rest)
    rw [hsplit] at ih ⊢
    rw [joined_cons_cons, ih, List.nil_append]
  | case3 c rest hsep hnil ih => exact absurd hnil (split_ne_nil rest)
  | case4 c rest hsep part parts hsplit ih =>
    rw [hsplit] at ih
    cases parts with
    | nil => rw [joined_singleton, ← ih, joined_singleton]
    | cons q parts => rw [joined_cons_cons, ← ih, joined_cons_cons, List.cons_append]

/-- Separators are found from the left, so only the last part can end with what one begins with. -/
theorem closing_of_mem_split (hp : p ∈ split text) (h : [' ', 'v'] <:+ p) : [' ', 'v'] <:+ text := by
  fun_induction split text generalizing p with
  | case1 =>
    rw [List.mem_singleton.1 hp] at h
    exact h
  | case2 rest ih =>
    rcases List.mem_cons.1 hp with rfl | hp
    · simp at h
    · exact (ih hp h).trans ⟨[' ', 'v', ' '], rfl⟩
  | case3 c rest hsep hnil ih => exact absurd hnil (split_ne_nil rest)
  | case4 c rest hsep part parts hsplit ih =>
    rcases List.mem_cons.1 hp with rfl | hp
    · rcases List.suffix_cons_iff.1 h with heq | hpart
      · -- more parts would begin after a space, so that there is a separator here
        obtain ⟨rfl, rfl⟩ : ' ' = c ∧ ['v'] = part := by simpa using heq
        have hrest := joined_split rest
        rw [hsplit] at hrest
        cases parts with
        | nil =>
          rw [← hrest, joined_singleton]
        | cons q parts =>
          rw [joined_cons_cons] at hrest
          exact absurd hrest.symm (hsep _ rfl)
      · exact (ih (by simp [hsplit]) hpart).trans (List.suffix_cons _ _)
    · exact (ih (by simp [hsplit, hp]) h).trans (List.suffix_cons _ _)

/-- The length of texts, each with a separator. -/
def extent (ps : List (List Char)) : Nat := (ps.map fun p => p.length + 3).sum

theorem extent_cons (p : List Char) (ps : List (List Char)) : extent (p :: ps) = p.length + 3 + extent ps := rfl

theorem extent_append (ps qs : List (List Char)) : extent (ps ++ qs) = extent ps + extent qs := by
  rw [extent, List.map_append, List.sum_append]
  rfl

theorem extent_perm (h : ps.Perm qs) : extent ps = extent qs := (h.map _).sum_eq

theorem extent_joined (hne : ps ≠ []) : extent ps = (joined ps).length + 3 := by
  induction ps with
  | nil => exact absurd rfl hne
  | cons p ps ih =>
    cases ps with
    | nil => rw [joined_singleton, extent_cons]; rfl
    | cons q ps =>
      rw [extent_cons, ih (by simp), joined_cons_cons]
      simp only [List.length_append, List.length_cons]
      omega

theorem extent_le_of_sublists (h : List.Forall₂ List.Sublist ps qs) : extent ps ≤ extent qs := by
  induction h with
  | nil => exact le_rfl
  | cons hpq _ ih =>
    rw [extent_cons, extent_cons]
    have := hpq.length_le
    omega

/-- Texts that leave out nothing of others are the others. -/
theorem eq_of_sublists (h : List.Forall₂ List.Sublist ps qs) (hle : extent qs ≤ extent ps) : ps = qs := by
  induction h with
  | nil => rfl
  | cons hpq hrest ih =>
    rw [extent_cons, extent_cons] at hle
    have hfirst := hpq.length_le
    have hothers := extent_le_of_sublists hrest
    rw [hpq.eq_of_length_le (by omega), ih (by omega)]

end Clause

/-! ## Names of clauses -/

namespace LiteralSet

variable {s : LiteralSet}

/-- Where the name of a set is read as the set, the parts are the names of the literals. -/
theorem mem_split_name (hne : s ≠ .empty) {ls : List Literal}
    (hmap : (Clause.split s.name.toList).mapM Literal.parse = .ok ls) (hls : ofList ls = s) {l : Literal}
    (hl : l ∈ s) : l.name.toList ∈ Clause.split s.name.toList := by
  have hsub : s.toList ⊆ ls := fun m hm => mem_ofList.1 (by rw [hls]; exact hm)
  obtain ⟨ms, hms, hinside⟩ := List.subperm_of_subset s.nodup_toList hsub
  obtain ⟨more, hmore⟩ := hinside.exists_perm_append
  have hperm : ls.Perm (s.toList ++ more) := hmore.trans (hms.append_right more)
  have hreads : List.Forall₂ List.Sublist (ls.map fun l => l.name.toList) (Clause.split s.name.toList) := by
    rw [List.forall₂_map_left_iff]
    exact (mapM_eq_ok_iff.1 hmap).flip.imp fun _ _ hparse => Literal.name_sublist_of_parse hparse
  have hlength : Clause.extent (Clause.split s.name.toList) = Clause.extent s.spellings := by
    rw [Clause.extent_joined (Clause.split_ne_nil _), Clause.joined_split, toList_name hne,
      Clause.extent_joined (spellings_ne_nil hne)]
  have hextent : Clause.extent (ls.map fun l => l.name.toList) =
      Clause.extent s.spellings + Clause.extent (more.map fun l => l.name.toList) := by
    rw [Clause.extent_perm (hperm.map _), List.map_append, Clause.extent_append]
    rfl
  rw [← Clause.eq_of_sublists hreads (by omega)]
  exact List.mem_map_of_mem (hsub hl)

/-- **The names that are read as their literals are the legible ones.** -/
theorem parseLiterals_name_iff (hne : s ≠ .empty) (h : ∀ l ∈ s, l.Spelled) :
    Clause.parseLiterals s.name.toList = .ok s ↔ s.Legible := by
  refine ⟨fun hread => ?_, fun hlegible => hlegible.parseLiterals_name hne h⟩
  obtain ⟨-, hdangling, ls, hmap, hls⟩ := Clause.parseLiterals_eq_ok_iff.1 hread
  rw [Text.trim_eq_self (trimmed_name hne h).2] at hdangling
  obtain ⟨hopening, hclosing⟩ := Clause.isDangling_eq_false_iff.1 hdangling
  exact ⟨hopening, hclosing, fun l hl hsuf =>
    hclosing (Clause.closing_of_mem_split (mem_split_name hne hmap hls hl) hsuf)⟩

end LiteralSet

/-! ## Clauses of one literal -/

namespace Text

variable {p rest : List Char}

theorem trimEnd_append (a : List Char) {b : List Char} (h : trimEnd b ≠ []) : trimEnd (a ++ b) = a ++ trimEnd b := by
  have hne : ¬(b.reverse.dropWhile isBlank).isEmpty = true := by
    simpa [trimEnd] using h
  rw [trimEnd, List.reverse_append, List.dropWhile_append, if_neg hne, List.reverse_append, List.reverse_reverse]
  rfl

theorem prefix_trimEnd_append (a b : List Char) : trimEnd a <+: trimEnd (a ++ b) := by
  by_cases hb : trimEnd b = []
  · have hblank : (b.reverse.dropWhile isBlank).isEmpty = true := by
      simpa [trimEnd] using hb
    rw [trimEnd, trimEnd, List.reverse_append, List.dropWhile_append, if_pos hblank]
  · rw [trimEnd_append a hb]
    exact (isPrefix_trimEnd a).trans (List.prefix_append _ _)

theorem trim_prefix_of_prefix (h : p <+: rest) (hne : trim p ≠ []) : trim p <+: trim rest := by
  obtain ⟨more, rfl⟩ := h
  have hp : ¬(p.dropWhile isBlank).isEmpty = true := by
    intro hempty
    exact hne (by rw [trim, List.isEmpty_iff.1 hempty]; rfl)
  rw [trim, trim, List.dropWhile_append, if_neg hp]
  exact prefix_trimEnd_append _ _

theorem trim_suffix_of_suffix (h : p <:+ rest) (hne : trim p ≠ []) : trim p <:+ trim rest := by
  obtain ⟨more, rfl⟩ := h
  rw [trim, trim, List.dropWhile_append]
  split
  · exact List.suffix_rfl
  · nth_rewrite 2 [← List.takeWhile_append_dropWhile (p := isBlank) (l := p)]
    rw [← List.append_assoc, trimEnd_append _ hne]
    exact List.suffix_append _ _

end Text

namespace Literal

variable {l : Literal} {text : List Char}

/-- A literal that begins or ends with what is left of a separator was read from a text that does. -/
theorem opening_of_parse (h : parse text = .ok l) (hpre : ['v', ' '] <+: l.name.toList) :
    ['v', ' '] <+: Text.trim text := by
  rcases ofTrimmed_cases h with ⟨rest, -, -, rfl⟩ | ⟨-, -, rfl⟩
  · rw [toList_name_of_negated rfl] at hpre
    simp [negation] at hpre
  · rwa [toList_name_of_positive rfl, String.toList_ofList] at hpre

theorem closing_of_parse (h : parse text = .ok l) (hsuf : [' ', 'v'] <:+ l.name.toList) :
    [' ', 'v'] <:+ Text.trim text := by
  rcases ofTrimmed_cases h with ⟨rest, hrest, hne, rfl⟩ | ⟨-, -, rfl⟩
  · rw [toList_name_of_negated rfl, String.toList_ofList, List.suffix_cons_iff] at hsuf
    have hrestsuf : [' ', 'v'] <:+ Text.trim rest := hsuf.resolve_left (by simp [negation])
    have hin : Text.trim rest <:+ Text.trim (Text.trim text) :=
      Text.trim_suffix_of_suffix (hrest ▸ List.suffix_cons _ _) hne
    rw [Text.trim_eq_self (Text.trimmed_trim text)] at hin
    exact hrestsuf.trans hin
  · rwa [toList_name_of_positive rfl, String.toList_ofList] at hsuf

theorem trim_ne_nil_of_parse (h : parse text = .ok l) : Text.trim text ≠ [] := by
  rcases ofTrimmed_cases h with ⟨rest, hrest, -, -⟩ | ⟨-, hne, -⟩
  · simp [hrest]
  · exact hne

end Literal

namespace LiteralSet

theorem toList_name_singleton (l : Literal) : (singleton l).name.toList = l.name.toList := by
  rw [toList_name (singleton_ne_empty l)]
  exact Clause.joined_singleton _

/-- A text that is read as one literal does not begin or end with what is left of a separator, and neither does the
literal. -/
theorem legible_singleton {text : List Char} {l : Literal} (h : Clause.parseLiterals text = .ok (singleton l)) :
    (singleton l).Legible := by
  obtain ⟨-, hdangling, ls, hmap, hls⟩ := Clause.parseLiterals_eq_ok_iff.1 h
  obtain ⟨hopening, hclosing⟩ := Clause.isDangling_eq_false_iff.1 hdangling
  have hparse : ∀ p ∈ Clause.split text, Literal.parse p = .ok l := by
    intro p hp
    obtain ⟨m, hm, hparse⟩ := exists_result_of_mapM hmap hp
    have hmem : m ∈ ofList ls := mem_ofList.2 hm
    rw [hls, mem_singleton] at hmem
    rw [hparse, hmem]
  have hends : ¬[' ', 'v'] <:+ l.name.toList := by
    intro hsuf
    obtain ⟨p, hp, hlast⟩ := Clause.exists_last_joined (Clause.split_ne_nil text)
    rw [Clause.joined_split] at hlast
    have hsuffix : p <:+ text := by
      rcases hlast with rfl | ⟨t, rfl⟩
      · exact List.suffix_rfl
      · exact (List.suffix_cons _ _).trans (List.suffix_append _ _)
    exact hclosing ((Literal.closing_of_parse (hparse p hp) hsuf).trans
      (Text.trim_suffix_of_suffix hsuffix (Literal.trim_ne_nil_of_parse (hparse p hp))))
  refine ⟨fun hpre => ?_, toList_name_singleton l ▸ hends, fun m hm => mem_singleton.1 hm ▸ hends⟩
  obtain ⟨p, hp, hhead⟩ := Clause.exists_head_joined (Clause.split_ne_nil text)
  rw [Clause.joined_split] at hhead
  have hprefix : p <+: text := by
    rcases hhead with rfl | ⟨t, rfl⟩
    · exact List.prefix_rfl
    · exact List.prefix_append _ _
  rw [toList_name_singleton] at hpre
  exact hopening ((Literal.opening_of_parse (hparse p hp) hpre).trans
    (Text.trim_prefix_of_prefix hprefix (Literal.trim_ne_nil_of_parse (hparse p hp))))

end LiteralSet

/-! ## Saved knowledge bases -/

namespace Engine

variable {e : Engine}

/-- Clauses are restored from their names if each name is read as its literals. -/
theorem legible_of_restore (h : e.Attained) {e' : Engine} (hrestore : e.saved.restore = .ok e')
    (hkeys : e'.knowledge.keys = e.knowledge.keys) : ∀ s ∈ e.knowledge.keys, s.Legible := by
  obtain ⟨sets, hreads, hkept⟩ := exists_reads_of_restore rfl hrestore
  -- none of the sets is dropped, as there are not more of them than clauses
  have hsub : e.knowledge.keys.Sublist sets := by
    rw [← hkeys, ClauseTable.keys, hkept]
    exact literals_kept_sublist sets
  have hlength : sets.length = e.knowledge.keys.length := by
    rw [← hreads.length_eq, names_eq, List.length_map]
  rw [names_eq, ← hsub.eq_of_length hlength.symm, List.forall₂_map_left_iff, List.forall₂_same] at hreads
  intro s hs
  exact (LiteralSet.parseLiterals_name_iff (h.tidy.ne_empty hs) (h.spells s (ClauseTable.mem_keys.1 hs))).1
    (hreads s hs)

/-- **Which clauses are read again from what is shown of them**: those with a legible name, among them all clauses of
one literal.  A knowledge base is restored from what is saved of it if and only if all names of its clauses are
legible. -/
theorem reads_again_iff_legible {id : Int} {text : String} {c : Clause} (h : Clause.parse id text = .ok c) (id' : Int) :
    ((∃ d, Clause.parse id' c.name = .ok d ∧ d.literals = c.literals) ↔ c.literals.Legible) ∧
    (∀ l, c.literals = .singleton l → c.literals.Legible) ∧
    ∀ e : Engine, e.Attained → ((∃ e', e.saved.restore = .ok e' ∧ e'.knowledge.keys = e.knowledge.keys) ↔
      ∀ s ∈ e.knowledge.keys, s.Legible) := by
  obtain ⟨s, hread, rfl⟩ := Clause.parse_eq_ok_iff.1 h
  refine ⟨?_, ?_, fun e he => ⟨?_, fun hlegible => ?_⟩⟩
  · have hne : s ≠ .empty := Clause.literals_ne_empty_of_parse h
    rw [← LiteralSet.parseLiterals_name_iff hne fun l hl => Clause.spelled_of_parseLiterals hread hl]
    constructor
    · rintro ⟨d, hparse, hliterals⟩
      obtain ⟨t, hname, rfl⟩ := Clause.parse_eq_ok_iff.1 hparse
      obtain rfl : t = s := hliterals
      exact hname
    · intro hname
      exact ⟨_, Clause.parse_eq_ok_iff.2 ⟨s, hname, rfl⟩, rfl⟩
  · rintro l rfl
    exact LiteralSet.legible_singleton hread
  · rintro ⟨e', hrestore, hkeys⟩
    exact legible_of_restore he hrestore hkeys
  · obtain ⟨e', hrestore, hkeys, -, -⟩ := exists_restored he.tidy he.spells hlegible
    exact ⟨e', hrestore, hkeys⟩

/-- In the middle of a name an atom may be `v` or begin with it. -/
theorem reads_again_between :
    let s := LiteralSet.ofList [⟨"w", false⟩, ⟨"u", false⟩, ⟨"v x", false⟩, ⟨"v", true⟩]
    let e := (Step.performAll [.add "w v u v v x v ~v"] {}).2.engine
    Clause.parse 1 "w v u v v x v ~v" = .ok { literals := s, id := 1 } ∧ s.name = "u v ~v v v x v w" ∧
      (∃ d, Clause.parse 0 s.name = .ok d ∧ d.literals = s) ∧ e.Attained ∧ e.knowledge.keys = [s] ∧
      ∃ e', e.saved.restore = .ok e' ∧ e'.knowledge.keys = [s] := by
  intro s e
  have hparse : Clause.parse 1 "w v u v v x v ~v" = .ok { literals := s, id := 1 } := by decide +kernel
  have hname : s.name = "u v ~v v v x v w" := by decide +kernel
  have he : e.Attained := ⟨[.add "w v u v v x v ~v"], rfl⟩
  have hkeys : e.knowledge.keys = [s] := by decide +kernel
  have hlegible : s.Legible := by decide +kernel
  clear_value e
  obtain ⟨hreads, -, hrestores⟩ := reads_again_iff_legible hparse 0
  refine ⟨hparse, hname, hreads.2 hlegible, he, hkeys, ?_⟩
  rw [← hkeys]
  exact (hrestores e he).2 (by simpa [hkeys] using hlegible)

/-- A tab beside a `v` makes it an atom, or part of one, but is not shown.  So the name of a clause may not be read at
all, or be read as other literals. -/
theorem misread_beside_tab :
    (Clause.parse 0 "a v \tv" = .ok { literals := .ofList [⟨"a", false⟩, ⟨"v", false⟩] } ∧
      (LiteralSet.ofList [⟨"a", false⟩, ⟨"v", false⟩]).name = "a v v" ∧
      Clause.parse 0 "a v v" = .error (.danglingSeparator "a v v")) ∧
    (Clause.parse 0 "a v\t v b" = .ok { literals := .ofList [⟨"a v", false⟩, ⟨"b", false⟩] } ∧
      (LiteralSet.ofList [⟨"a v", false⟩, ⟨"b", false⟩]).name = "a v v b" ∧
      Clause.parse 0 "a v v b" = .ok { literals := .ofList [⟨"a", false⟩, ⟨"v b", false⟩] }) ∧
    (Step.performAll [.add "a v \tv"] {}).2.engine.saved.restore =
      .error (.unreadable (.danglingSeparator "a v v")) := by
  refine ⟨by decide +kernel, by decide +kernel, ?_⟩
  exact restore_of_error (by decide +kernel) (by decide +kernel : ["a v v"].mapM (Clause.parse 0) = _)

end Engine

end Clausal
