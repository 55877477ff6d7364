import Clausal.Outcome.Report
import Mathlib.Data.List.Forall2

/-!
# Reading graphs

A reader of the DOT language, for texts that hold one directed graph and end each of its statements with a semicolon.
A text is read one character after the other (`Dot.Scanner.feed`).  A quoted text ends at the first double quote that is
not immediately preceded by a backslash, and in it a backslash and a double quote stand for a double quote.

* `Dot.read`: the nodes of a text, with their labels, and its edges;
* `Dot.Scans text tokens`: the text is read as the tokens, and ends between two of them;
* `Dot.Tells line statement`: the line holds the statement;
* `Dot.read_of_tells`: a graph is read line by line;
* `Dot.label_of_read`: no label that is read ends with a backslash.
-/

namespace Clausal.Dot

/-! ## Tokens -/

/-- The signs with a meaning of their own. -/
inductive Mark where
  | braceOpen
  | braceClose
  | bracketOpen
  | bracketClose
  | equals
  | comma
  | semicolon
deriving DecidableEq

/-- The mark that a character is. -/
def mark? (c : Char) : Option Mark :=
  if c = '\x7b' then some .braceOpen
  else if c = '\x7d' then some .braceClose
  else if c = '[' then some .bracketOpen
  else if c = ']' then some .bracketClose
  else if c = '=' then some .equals
  else if c = ',' then some .comma
  else if c = ';' then some .semicolon
  else none

/-- What separates words. -/
def isBlank (c : Char) : Bool := c == ' ' || c == '\t' || c == '\n' || c == '\r'

/-- A character of a word: no blank, no mark and no quote. -/
def isPlain (c : Char) : Bool := !isBlank c && c != '"' && (mark? c).isNone

/-- What a text is made of. -/
inductive Token where
  | word (text : List Char)
  | quoted (text : List Char)
  | mark (sign : Mark)
deriving DecidableEq

/-- What has been read: the tokens, and of the token that is being read the characters, the last of them first in both.
The scanner may stand inside a quoted text. -/
structure Scanner where
  tokens : List Token
  read : List Char
  inside : Bool
deriving DecidableEq

namespace Scanner

/-- The tokens, with the word that ends here. -/
def words (r : Scanner) : List Token :=
  match r.read with
  | [] => r.tokens
  | c :: read => .word (c :: read).reverse :: r.tokens

/-- Reads a character. -/
def feed (r : Scanner) (c : Char) : Scanner :=
  if r.inside then
    if c = '"' then
      match r.read with
      | '\\' :: read => { r with read := '"' :: read }
      | read => ⟨.quoted read.reverse :: r.tokens, [], false⟩
    else { r with read := c :: r.read }
  else if isBlank c then ⟨r.words, [], false⟩
  else if c = '"' then ⟨r.words, [], true⟩
  else match mark? c with
    | some sign => ⟨.mark sign :: r.words, [], false⟩
    | none => { r with read := c :: r.read }

end Scanner

/-- The tokens of a text, unless a quoted text does not end. -/
def scan (text : List Char) : Option (List Token) :=
  let r := text.foldl Scanner.feed ⟨[], [], false⟩
  if r.inside then none else some r.words.reverse

/-! ## Statements -/

/-- A name begins with a letter or an underscore, and goes on with such and with digits. -/
def isName : List Char → Bool
  | [] => false
  | c :: rest => !c.isDigit && (c :: rest).all fun c => c.isAlphanum || c == '_'

/-- The value that a token stands for. -/
def Token.value? : Token → Option (List Char)
  | word text => if isName text then some text else none
  | quoted text => some text
  | mark _ => none

/-- The attributes between brackets, of which the first one has been read. -/
def attributes : List Token → Option (List (List Char × List Char))
  | [.word key, .mark .equals, value, .mark .bracketClose] => value.value?.map fun text => [(key, text)]
  | .word key :: .mark .equals :: value :: .mark .comma :: rest =>
    value.value?.bind fun text => (attributes rest).map ((key, text) :: ·)
  | _ => none

/-- The label among the attributes of a node: the last one, or else its name. -/
def labelOf (name : List Char) (attributes : List (List Char × List Char)) : List Char :=
  (attributes.reverse.lookup "label".toList).getD name

/-- What a statement says. -/
inductive Statement where
  /-- An attribute of the graph as a whole. -/
  | setting
  /-- The attributes that nodes or edges have if they say nothing else. -/
  | defaults
  /-- A node and its label. -/
  | node (name label : String)
  /-- An edge. -/
  | edge (source target : String)
deriving DecidableEq

/-- The words that name no node. -/
def keywords : List (List Char) := ["graph".toList, "node".toList, "edge".toList]

/-- The statement that the tokens in front of a semicolon make. -/
def statement : List Token → Option Statement
  | [.word _, .mark .equals, value] => value.value?.map fun _ => .setting
  | [.word source, .word arrow, .word target] =>
    if arrow = "->".toList ∧ isName source ∧ isName target then
      some (.edge (String.ofList source) (String.ofList target))
    else none
  | .word name :: .mark .bracketOpen :: rest =>
    (attributes rest).bind fun attributes =>
      if name ∈ keywords then some .defaults
      else if isName name then some (.node (String.ofList name) (String.ofList (labelOf name attributes)))
      else none
  | _ => none

/-- The tokens in front of each semicolon, and those behind the last one. -/
def sentences : List Token → List (List Token) × List Token
  | [] => ([], [])
  | t :: rest =>
    if t = .mark .semicolon then ([] :: (sentences rest).1, (sentences rest).2)
    else match (sentences rest).1 with
      | [] => ([], t :: (sentences rest).2)
      | s :: ss => ((t :: s) :: ss, (sentences rest).2)

/-- The statements of a directed graph. -/
def statements : List Token → Option (List Statement)
  | .word keyword :: .word _ :: .mark .braceOpen :: body =>
    if keyword = "digraph".toList ∧ (sentences body).2 = [.mark .braceClose] then
      (sentences body).1.mapM statement
    else none
  | _ => none

/-! ## Graphs -/

/-- Nodes, with their labels, and edges. -/
structure Graph where
  nodes : List (String × String)
  edges : List (String × String)
deriving DecidableEq

/-- The node that a statement declares. -/
def Statement.node? : Statement → Option (String × String)
  | node name label => some (name, label)
  | _ => none

/-- The edge that a statement declares. -/
def Statement.edge? : Statement → Option (String × String)
  | edge source target => some (source, target)
  | _ => none

/-- The graph that statements declare. -/
def Graph.ofStatements (ss : List Statement) : Graph :=
  ⟨ss.filterMap Statement.node?, ss.filterMap Statement.edge?⟩

/-- Reads a graph. -/
def read (text : String) : Option Graph :=
  ((scan text.toList).bind statements).map Graph.ofStatements

/-! ## Scanning -/

/-- The scanner with other tokens read before. -/
def Scanner.after (r : Scanner) (before : List Token) : Scanner := { r with tokens := r.tokens ++ before }

/-- Read by itself the text gives the tokens, and the scanner stands between two tokens again. -/
def Scans (text : List Char) (tokens : List Token) : Prop :=
  text.foldl Scanner.feed ⟨[], [], false⟩ = ⟨tokens.reverse, [], false⟩

instance (text : List Char) (tokens : List Token) : Decidable (Scans text tokens) := inferInstanceAs (Decidable (_ = _))

section Scans

variable {text text' w : List Char} {tokens tokens' ts : List Token} {c : Char} {sign : Mark} {r : Scanner}

theorem words_after (r : Scanner) (before : List Token) : (r.after before).words = r.words ++ before := by
  obtain ⟨tokens, _ | _, inside⟩ := r <;> rfl

/-- What has been read before makes no difference. -/
theorem feed_after (r : Scanner) (before : List Token) (c : Char) :
    (r.after before).feed c = (r.feed c).after before := by
  have hwords := words_after r before
  obtain ⟨tokens, read, inside⟩ := r
  unfold Scanner.after at hwords ⊢
  simp only [Scanner.feed, hwords]
  split
  · split
    · split <;> rfl
    · rfl
  · split
    · rfl
    · split
      · rfl
      · split <;> rfl

theorem foldl_after (text : List Char) (r : Scanner) (before : List Token) :
    text.foldl Scanner.feed (r.after before) = (text.foldl Scanner.feed r).after before := by
  induction text generalizing r with
  | nil => rfl
  | cons c text ih => rw [List.foldl_cons, feed_after, ih, List.foldl_cons]

theorem Scans.foldl (h : Scans text tokens) (before : List Token) :
    text.foldl Scanner.feed ⟨before, [], false⟩ = ⟨tokens.reverse ++ before, [], false⟩ := by
  have hafter := foldl_after text ⟨[], [], false⟩ before
  rwa [h] at hafter

theorem Scans.append (h : Scans text tokens) (h' : Scans text' tokens') :
    Scans (text ++ text') (tokens ++ tokens') := by
  unfold Scans
  rw [List.foldl_append, h, h'.foldl, List.reverse_append]

theorem scan_of_scans (h : Scans text tokens) : scan text = some tokens := by
  unfold scan
  rw [h]
  simp [Scanner.words]

theorem feed_plain (h : isPlain c = true) (ts : List Token) (read : List Char) :
    Scanner.feed ⟨ts, read, false⟩ c = ⟨ts, c :: read, false⟩ := by
  simp only [isPlain, Bool.and_eq_true, Bool.not_eq_true', bne_iff_ne, ne_eq, Option.isNone_iff_eq_none] at h
  obtain ⟨⟨hblank, hquote⟩, hmark⟩ := h
  simp [Scanner.feed, hblank, hquote, hmark]

theorem foldl_plain (h : ∀ c ∈ w, isPlain c = true) (ts : List Token) (read : List Char) :
    w.foldl Scanner.feed ⟨ts, read, false⟩ = ⟨ts, w.reverse ++ read, false⟩ := by
  induction w generalizing read with
  | nil => rfl
  | cons c w ih =>
    rw [List.foldl_cons, feed_plain (h c (by simp)), ih fun d hd => h d (by simp [hd])]
    simp

theorem words_reverse (hne : w ≠ []) (ts : List Token) : (Scanner.mk ts w.reverse false).words = .word w :: ts := by
  obtain ⟨c, read, hw⟩ := List.exists_cons_of_ne_nil (List.reverse_ne_nil_iff.2 hne)
  have hword : w = (c :: read).reverse := by rw [← hw, List.reverse_reverse]
  rw [hw, hword]
  rfl

/-- A word with a blank behind it. -/
theorem scans_word_blank (h : ∀ c ∈ w, isPlain c = true) (hne : w ≠ []) : Scans (w ++ [' ']) [.word w] := by
  unfold Scans
  rw [List.foldl_append, foldl_plain h, List.append_nil]
  show (⟨(Scanner.mk [] w.reverse false).words, [], false⟩ : Scanner) = _
  rw [words_reverse hne]
  rfl

/-- A word with a mark behind it. -/
theorem scans_word_mark (h : ∀ c ∈ w, isPlain c = true) (hne : w ≠ []) (hquote : c ≠ '"') (hblank : isBlank c = false)
    (hmark : mark? c = some sign) : Scans (w ++ [c]) [.word w, .mark sign] := by
  unfold Scans
  rw [List.foldl_append, foldl_plain h, List.append_nil]
  simp [Scanner.feed, hquote, hblank, hmark, words_reverse hne]

/-- **What is written between quotes is read back**, up to the quote that is to end it. -/
theorem foldl_label (text : String) (ts : List Token) : (Outcome.label text).toList.foldl Scanner.feed ⟨ts, [], true⟩ =
    ⟨ts, text.toList.reverse, true⟩ := by
  have hfold : ∀ (cs read : List Char), (cs.flatMap fun c => if c = '"' then ['\\', '"'] else [c]).foldl Scanner.feed
      ⟨ts, read, true⟩ = ⟨ts, cs.reverse ++ read, true⟩ := by
    intro cs
    induction cs with
    | nil => exact fun read => rfl
    | cons c cs ih =>
      intro read
      rw [List.flatMap_cons, List.foldl_append]
      by_cases hquote : c = '"'
      · subst hquote
        have hstep : ['\\', '"'].foldl Scanner.feed ⟨ts, read, true⟩ = ⟨ts, '"' :: read, true⟩ := rfl
        rw [if_pos rfl, hstep, ih]
        simp
      · have hstep : [c].foldl Scanner.feed ⟨ts, read, true⟩ = ⟨ts, c :: read, true⟩ := by
          simp [Scanner.feed, hquote]
        rw [if_neg hquote, hstep, ih]
        simp
  rw [Outcome.label, String.toList_ofList, hfold, List.append_nil]

/-- A text that can stand between quotes: it does not end with a backslash. -/
def Quotable (text : List Char) : Prop := text.getLast? ≠ some '\\'

instance (text : List Char) : Decidable (Quotable text) := inferInstanceAs (Decidable (_ ≠ _))

/-- The quote behind a text ends it, unless the text ends with a backslash. -/
theorem feed_quote (h : Quotable text) (ts : List Token) :
    Scanner.feed ⟨ts, text.reverse, true⟩ '"' = ⟨.quoted text :: ts, [], false⟩ := by
  have hhead : text.reverse.head? ≠ some '\\' := by rwa [List.head?_reverse]
  have hread : text = text.reverse.reverse := text.reverse_reverse.symm
  generalize text.reverse = read at hhead hread
  subst hread
  unfold Scanner.feed
  rw [if_pos rfl, if_pos rfl]
  split
  · rename_i rest hcons
    have hcons : read = '\\' :: rest := hcons
    simp [hcons] at hhead
  · rfl

theorem scans_quoted {text : String} (h : Quotable text.toList) :
    Scans (['"'] ++ (Outcome.label text).toList ++ ['"']) [.quoted text.toList] := by
  unfold Scans
  have hopen : ['"'].foldl Scanner.feed ⟨[], [], false⟩ = ⟨[], [], true⟩ := rfl
  rw [List.foldl_append, List.foldl_append, hopen, foldl_label, List.foldl_cons, feed_quote h]
  rfl

end Scans

/-! ## Lines -/

section Lines

variable {s t : List Token} {ss : List (List Token)} {last : List Token} {lines : List String} {sts : List Statement}

theorem sentences_cons (hs : .mark .semicolon ∉ s) (rest : List Token) :
    sentences (s ++ .mark .semicolon :: rest) = (s :: (sentences rest).1, (sentences rest).2) := by
  induction s with
  | nil => simp [sentences]
  | cons t s ih =>
    obtain ⟨ht, hs⟩ := not_or.1 (List.mem_cons.not.1 hs)
    rw [List.cons_append, sentences, if_neg (Ne.symm ht), ih hs]

theorem sentences_of_not_mem (h : .mark .semicolon ∉ last) : sentences last = ([], last) := by
  induction last with
  | nil => rfl
  | cons t last ih =>
    obtain ⟨ht, hlast⟩ := not_or.1 (List.mem_cons.not.1 h)
    rw [sentences, if_neg (Ne.symm ht), ih hlast]

/-- Sentences are found again. -/
theorem sentences_flatMap (h : ∀ s ∈ ss, .mark .semicolon ∉ s) (hlast : .mark .semicolon ∉ last) :
    sentences ((ss.flatMap fun s => s ++ [.mark .semicolon]) ++ last) = (ss, last) := by
  induction ss with
  | nil => exact sentences_of_not_mem hlast
  | cons s ss ih =>
    have hassoc : ((s :: ss).flatMap fun s => s ++ [.mark .semicolon]) ++ last =
        s ++ .mark .semicolon :: ((ss.flatMap fun s => s ++ [.mark .semicolon]) ++ last) := by
      simp
    rw [hassoc, sentences_cons (h s (by simp)), ih fun s hs => h s (by simp [hs])]

/-- The line holds the statement, and nothing else. -/
def Tells (line : String) (st : Statement) : Prop :=
  ∃ s, Scans (line.toList ++ ['\n']) (s ++ [.mark .semicolon]) ∧ .mark .semicolon ∉ s ∧ statement s = some st

theorem toList_unlines (lines : List String) :
    (Text.unlines lines).toList = lines.flatMap fun line => line.toList ++ ['\n'] := by
  rw [Text.unlines, String.toList_join, List.flatMap_map]
  simp

/-- What lines tell is found in the sentences that they are read as. -/
theorem exists_sentences (h : List.Forall₂ Tells lines sts) : ∃ ss : List (List Token),
    Scans (Text.unlines lines).toList (ss.flatMap fun s => s ++ [.mark .semicolon]) ∧
      (∀ s ∈ ss, .mark .semicolon ∉ s) ∧ ss.mapM statement = some sts := by
  induction h with
  | nil => exact ⟨[], by decide, by simp, rfl⟩
  | @cons line st lines sts hline _ ih =>
    obtain ⟨s, hscans, hs, hst⟩ := hline
    obtain ⟨ss, hrest, hss, hsts⟩ := ih
    refine ⟨s :: ss, ?_, by simpa using ⟨hs, hss⟩, by simp [hst, hsts]⟩
    rw [toList_unlines, List.flatMap_cons, ← toList_unlines, List.flatMap_cons]
    exact hscans.append hrest

/-- **A graph is read line by line.** -/
theorem read_of_tells (h : List.Forall₂ Tells lines sts) :
    read (Text.unlines (["digraph proof \x7b"] ++ lines ++ ["\x7d"])) = some (Graph.ofStatements sts) := by
  obtain ⟨ss, hscans, hss, hsts⟩ := exists_sentences h
  have hopen : Scans (Text.unlines ["digraph proof \x7b"]).toList
      [.word "digraph".toList, .word "proof".toList, .mark .braceOpen] := by decide +kernel
  have hclose : Scans (Text.unlines ["\x7d"]).toList [.mark .braceClose] := by decide +kernel
  have htext : (Text.unlines (["digraph proof \x7b"] ++ lines ++ ["\x7d"])).toList =
      (Text.unlines ["digraph proof \x7b"]).toList ++ (Text.unlines lines).toList ++
        (Text.unlines ["\x7d"]).toList := by
    simp only [toList_unlines, List.flatMap_append]
  have hscan := scan_of_scans ((hopen.append hscans).append hclose)
  have hsentences : sentences ((ss.flatMap fun s => s ++ [.mark .semicolon]) ++ [.mark .braceClose]) =
      (ss, [.mark .braceClose]) := sentences_flatMap hss (by simp)
  rw [read, htext, hscan, Option.bind_some]
  have hstatements : statements ([.word "digraph".toList, .word "proof".toList, .mark .braceOpen] ++
      (ss.flatMap fun s => s ++ [.mark .semicolon]) ++ [.mark .braceClose]) = some sts := by
    rw [List.append_assoc]
    simp [statements, hsentences, hsts]
  rw [hstatements, Option.map_some]

end Lines

/-! ## Labels -/

/-- The quoted texts among the tokens do not end with a backslash. -/
def Sound (ts : List Token) : Prop := ∀ text, .quoted text ∈ ts → Quotable text

section Labels

variable {r : Scanner} {ts s : List Token} {t : Token} {text name : List Char}

theorem Sound.words (h : Sound r.tokens) : Sound r.words := by
  unfold Scanner.words
  split
  · exact h
  · intro text hmem
    rcases List.mem_cons.1 hmem with heq | hmem
    · cases heq
    · exact h text hmem

/-- **A quote that comes right after a backslash does not end a text.** -/
theorem Sound.feed (h : Sound r.tokens) (c : Char) : Sound (r.feed c).tokens := by
  unfold Scanner.feed
  split
  · split
    · split
      · exact h
      · rename_i hslash
        intro text hmem
        rcases List.mem_cons.1 hmem with heq | hmem
        · cases heq
          intro hlast
          rw [List.getLast?_reverse] at hlast
          obtain ⟨read, hread⟩ := List.head?_eq_some_iff.1 hlast
          exact hslash read hread
        · exact h text hmem
    · exact h
  · split
    · exact h.words
    · split
      · exact h.words
      · split
        · intro text hmem
          rcases List.mem_cons.1 hmem with heq | hmem
          · cases heq
          · exact h.words text hmem
        · exact h

theorem Sound.foldl (h : Sound r.tokens) (text : List Char) : Sound (text.foldl Scanner.feed r).tokens := by
  induction text generalizing r with
  | nil => exact h
  | cons c text ih => exact ih (h.feed c)

theorem sound_scan (h : scan text = some ts) : Sound ts := by
  unfold scan at h
  dsimp only at h
  split at h
  · cases h
  · cases h
    have hwords : Sound (text.foldl Scanner.feed ⟨[], [], false⟩).words :=
      (Sound.foldl (r := ⟨[], [], false⟩) (by simp [Sound]) text).words
    intro text hmem
    exact hwords text (List.mem_reverse.1 hmem)

theorem quotable_of_isName (h : isName text = true) : Quotable text := by
  cases text with
  | nil => cases h
  | cons c rest =>
    intro hlast
    have hmem : '\\' ∈ c :: rest := List.mem_of_getLast? hlast
    rw [isName, Bool.and_eq_true, List.all_eq_true] at h
    have := h.2 _ hmem
    revert this
    decide

theorem quotable_of_value (h : Sound ts) (ht : t ∈ ts) (hvalue : t.value? = some text) : Quotable text := by
  cases t with
  | word w =>
    obtain ⟨hname, rfl⟩ : isName w = true ∧ w = text := by simpa [Token.value?] using hvalue
    exact quotable_of_isName hname
  | quoted w =>
    cases hvalue
    exact h _ ht
  | mark sign => cases hvalue

/-- The values of attributes can stand between quotes. -/
theorem quotable_of_attributes {pairs : List (List Char × List Char)} (h : Sound ts)
    (hpairs : attributes ts = some pairs) : ∀ pair ∈ pairs, Quotable pair.2 := by
  fun_induction attributes ts generalizing pairs with
  | case1 key value =>
    obtain ⟨text, hvalue, rfl⟩ := Option.map_eq_some_iff.1 hpairs
    intro pair hpair
    rw [List.mem_singleton.1 hpair]
    exact quotable_of_value h (by simp) hvalue
  | case2 key value rest ih =>
    obtain ⟨text, hvalue, hmore⟩ := Option.bind_eq_some_iff.1 hpairs
    obtain ⟨more, hattributes, rfl⟩ := Option.map_eq_some_iff.1 hmore
    intro pair hpair
    rcases List.mem_cons.1 hpair with rfl | hpair
    · exact quotable_of_value h (by simp) hvalue
    · exact ih (fun text hmem => h text (by simp [hmem])) hattributes pair hpair
  | case3 => cases hpairs

theorem quotable_labelOf {pairs : List (List Char × List Char)} (hname : isName name = true)
    (h : ∀ pair ∈ pairs, Quotable pair.2) : Quotable (labelOf name pairs) := by
  unfold labelOf
  cases hlookup : pairs.reverse.lookup "label".toList with
  | none => exact quotable_of_isName hname
  | some text =>
    obtain ⟨before, after, hsplit, -⟩ := List.lookup_eq_some_iff.1 hlookup
    have hmem : ("label".toList, text) ∈ pairs := by
      rw [← List.mem_reverse, hsplit]
      simp
    exact h _ hmem

theorem quotable_of_statement {source label : String} (h : Sound s) (hs : statement s = some (.node source label)) :
    Quotable label.toList := by
  unfold statement at hs
  split at hs
  · obtain ⟨_, -, heq⟩ := Option.map_eq_some_iff.1 hs
    cases heq
  · split at hs <;> cases hs
  · rename_i name rest
    obtain ⟨pairs, hpairs, hs⟩ := Option.bind_eq_some_iff.1 hs
    split at hs
    · cases hs
    · split at hs
      · rename_i hname
        cases hs
        rw [String.toList_ofList]
        exact quotable_labelOf hname (quotable_of_attributes (fun text hmem => h text (by simp [hmem])) hpairs)
      · cases hs
  · cases hs

theorem mem_of_mem_sentences (hs : s ∈ (sentences ts).1) (ht : t ∈ s) : t ∈ ts := by
  induction ts generalizing s with
  | nil => cases hs
  | cons u ts ih =>
    rw [sentences] at hs
    split at hs
    · rcases List.mem_cons.1 hs with rfl | hs
      · cases ht
      · exact List.mem_cons_of_mem _ (ih hs ht)
    · split at hs
      · cases hs
      · rename_i first rest heq
        rcases List.mem_cons.1 hs with rfl | hs
        · rcases List.mem_cons.1 ht with rfl | ht
          · simp
          · exact List.mem_cons_of_mem _ (ih (by simp [heq]) ht)
        · exact List.mem_cons_of_mem _ (ih (by simp [heq, hs]) ht)

theorem exists_of_mapM {α β : Type} {f : α → Option β} {as : List α} {bs : List β} (h : as.mapM f = some bs) :
    ∀ b ∈ bs, ∃ a ∈ as, f a = some b := by
  induction as generalizing bs with
  | nil =>
    cases h
    simp
  | cons a as ih =>
    rw [List.mapM_cons] at h
    obtain ⟨b, hb, h⟩ := Option.bind_eq_some_iff.1 h
    obtain ⟨more, hmore, h⟩ := Option.bind_eq_some_iff.1 h
    cases h
    intro x hx
    rcases List.mem_cons.1 hx with rfl | hx
    · exact ⟨a, by simp, hb⟩
    · obtain ⟨y, hy, hxy⟩ := ih hmore x hx
      exact ⟨y, by simp [hy], hxy⟩

theorem exists_sentence {sts : List Statement} (h : statements ts = some sts) :
    ∀ st ∈ sts, ∃ s, (∀ t ∈ s, t ∈ ts) ∧ statement s = some st := by
  unfold statements at h
  split at h
  · rename_i keyword title body
    split at h
    · intro st hst
      obtain ⟨s, hs, hstatement⟩ := exists_of_mapM h st hst
      refine ⟨s, fun t ht => ?_, hstatement⟩
      simp [mem_of_mem_sentences hs ht]
    · cases h
  · cases h

/-- **No label that is read ends with a backslash.** -/
theorem label_of_read {text : String} {g : Graph} (h : read text = some g) : ∀ n ∈ g.nodes, Quotable n.2.toList := by
  obtain ⟨sts, hsts, rfl⟩ := Option.map_eq_some_iff.1 h
  obtain ⟨ts, hscan, hstatements⟩ := Option.bind_eq_some_iff.1 hsts
  have hsound := sound_scan hscan
  intro n hn
  obtain ⟨st, hst, hnode⟩ := List.mem_filterMap.1 hn
  obtain ⟨s, hs, hstatement⟩ := exists_sentence hstatements st hst
  cases st with
  | node name label =>
    cases hnode
    exact quotable_of_statement (fun text hmem => hsound text (hs _ hmem)) hstatement
  | setting | defaults | edge => cases hnode

end Labels

end Clausal.Dot
