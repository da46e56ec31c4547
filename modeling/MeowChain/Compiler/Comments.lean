import Mathlib.Data.List.Chain

/-!
# Comments

`strip_line_comments` against the pieces a source text is made of: characters of the program, string
literals and comments. A comment is overwritten with spaces where it stands.
-/

set_option autoImplicit false

namespace MeowChain.Compiler

/-- Comments become spaces; text within quotes is left alone. -/
def stripLineComments : Bool → List Char → List Char
  | _, [] => []
  | true, c :: s => c :: stripLineComments (c != '"') s
  | false, '"' :: s => '"' :: stripLineComments true s
  | false, '/' :: '/' :: s => ' ' :: ' ' :: inComment s
  | false, c :: s => c :: stripLineComments false s
where
  inComment : List Char → List Char
    | [] => []
    | '\n' :: s => '\n' :: stripLineComments false s
    | _ :: s => ' ' :: inComment s

namespace Source

/-! ## The pieces of a source -/

inductive Region where
  | code
  | literal
  | comment
  deriving DecidableEq

/-- A literal goes from quote to quote, or to the end of the text if it is not closed. The newline
after a comment is not part of it. -/
inductive Piece where
  | plain (c : Char)
  | literal (body : List Char) (closed : Bool)
  | comment (body : List Char)

/-- The characters of a piece and what they are part of. -/
def Piece.marked : Piece → List (Region × Char)
  | .plain c => [(.code, c)]
  | .literal body closed =>
    (.literal, '"') :: (body.map ((.literal, ·)) ++ if closed then [(.literal, '"')] else [])
  | .comment body => (.comment, '/') :: (.comment, '/') :: body.map ((.comment, ·))

def Piece.region : Piece → Region
  | .plain _ => .code
  | .literal _ _ => .literal
  | .comment _ => .comment

theorem Piece.region_of_mem {piece : Piece} {x : Region × Char} (h : x ∈ piece.marked) :
    x.1 = piece.region := by
  suffices hall : ∀ x ∈ piece.marked, x.1 = piece.region from hall x h
  rcases piece with c | ⟨body, _ | _⟩ | body <;>
    simp +contextual [Piece.marked, Piece.region, or_imp]

def marked (pieces : List Piece) : List (Region × Char) :=
  pieces.flatMap Piece.marked

theorem marked_cons (piece : Piece) (rest : List Piece) :
    marked (piece :: rest) = piece.marked ++ marked rest :=
  List.flatMap_cons

def text (pieces : List Piece) : List Char :=
  (marked pieces).map (·.2)

/-- Two slashes outside of a literal begin a comment, and only a newline ends it. -/
def WellFormed : List Piece → Prop
  | [] => True
  | .plain c :: rest => c ≠ '"' ∧ (c = '/' → (text rest).head? ≠ some '/') ∧ WellFormed rest
  | .literal body true :: rest => '"' ∉ body ∧ WellFormed rest
  | .literal body false :: rest => '"' ∉ body ∧ rest = []
  | .comment body :: rest =>
    '\n' ∉ body ∧ (∀ c ∈ (text rest).head?, c = '\n') ∧ WellFormed rest

def blank (x : Region × Char) : Char :=
  if x.1 = .comment then ' ' else x.2

section Text

variable (c : Char) (body : List Char) (rest : List Piece)

@[simp] theorem text_nil : text [] = [] := rfl

@[simp] theorem text_plain : text (.plain c :: rest) = c :: text rest := rfl

@[simp] theorem text_comment : text (.comment body :: rest) = '/' :: '/' :: (body ++ text rest) := by
  simp [text, marked, Piece.marked, Function.comp_def]

@[simp] theorem text_literal_closed :
    text (.literal body true :: rest) = '"' :: (body ++ '"' :: text rest) := by
  simp [text, marked, Piece.marked, Function.comp_def]

@[simp] theorem text_literal_open :
    text (.literal body false :: rest) = '"' :: (body ++ text rest) := by
  simp [text, marked, Piece.marked, Function.comp_def]

end Text

theorem exists_before (c : Char) (s : List Char) : ∃ body rest, c ∉ body ∧ s = body ++ rest ∧
    (rest = [] ∨ ∃ tail, rest = c :: tail) := by
  induction s with
  | nil => exact ⟨[], [], List.not_mem_nil, rfl, .inl rfl⟩
  | cons d s ih =>
    by_cases hd : d = c
    · exact ⟨[], d :: s, List.not_mem_nil, rfl, .inr ⟨s, by rw [hd]⟩⟩
    · obtain ⟨body, rest, hbody, rfl, hrest⟩ := ih
      exact ⟨d :: body, rest, List.not_mem_cons_of_ne_of_not_mem (Ne.symm hd) hbody, rfl, hrest⟩

theorem exists_pieces (source : List Char) : ∃ pieces, WellFormed pieces ∧ text pieces = source := by
  induction hn : source.length using Nat.strong_induction_on generalizing source with
  | _ n ih =>
    subst hn
    rcases source with _ | ⟨c, s⟩
    · exact ⟨[], trivial, rfl⟩
    by_cases hquote : c = '"'
    · subst hquote
      obtain ⟨body, rest, hbody, rfl, rfl | ⟨tail, rfl⟩⟩ := exists_before '"' s
      · exact ⟨[.literal body false], ⟨hbody, rfl⟩, by simp⟩
      · obtain ⟨pieces, hwf, htext⟩ := ih tail.length (by simp; omega) tail rfl
        exact ⟨.literal body true :: pieces, ⟨hbody, hwf⟩, by simp [htext]⟩
    by_cases hslashes : c = '/' ∧ s.head? = some '/'
    · obtain ⟨rfl, hhead⟩ := hslashes
      obtain ⟨s, rfl⟩ := List.head?_eq_some_iff.mp hhead
      obtain ⟨body, rest, hbody, rfl, hrest⟩ := exists_before '\n' s
      obtain ⟨pieces, hwf, htext⟩ := ih rest.length (by simp; omega) rest rfl
      refine ⟨.comment body :: pieces, ⟨hbody, ?_, hwf⟩, by simp [htext]⟩
      rw [htext]
      rcases hrest with rfl | ⟨tail, rfl⟩ <;> simp
    · obtain ⟨pieces, hwf, htext⟩ := ih s.length (by simp) s rfl
      refine ⟨.plain c :: pieces, ⟨hquote, fun hc hhead => ?_, hwf⟩, by simp [htext]⟩
      rw [htext] at hhead
      exact hslashes ⟨hc, hhead⟩

/-! ## The scan -/

section Scan

variable {c : Char} {s body : List Char} {pieces : List Piece}

theorem strip_plain (hquote : c ≠ '"') (hslashes : c = '/' → s.head? ≠ some '/') :
    stripLineComments false (c :: s) = c :: stripLineComments false s := by
  rw [stripLineComments]
  · exact hquote
  · rintro tail rfl rfl
    exact hslashes rfl rfl

theorem strip_literal (hbody : '"' ∉ body) (s : List Char) :
    stripLineComments true (body ++ '"' :: s) = body ++ '"' :: stripLineComments false s := by
  induction body with
  | nil => rfl
  | cons c body ih =>
    obtain ⟨hc, hbody⟩ := List.ne_and_not_mem_of_not_mem_cons hbody
    have hopen : (c != '"') = true := bne_iff_ne.mpr (Ne.symm hc)
    rw [List.cons_append, stripLineComments, hopen, ih hbody]
    rfl

theorem strip_open (hbody : '"' ∉ body) : stripLineComments true body = body := by
  induction body with
  | nil => rfl
  | cons c body ih =>
    obtain ⟨hc, hbody⟩ := List.ne_and_not_mem_of_not_mem_cons hbody
    have hopen : (c != '"') = true := bne_iff_ne.mpr (Ne.symm hc)
    rw [stripLineComments, hopen, ih hbody]

theorem strip_comment (hbody : '\n' ∉ body) (hend : ∀ c ∈ s.head?, c = '\n') :
    stripLineComments.inComment (body ++ s) =
      body.map (fun _ => ' ') ++ stripLineComments false s := by
  induction body with
  | nil =>
    cases s with
    | nil => rfl
    | cons c s =>
      obtain rfl := hend c rfl
      rw [strip_plain (by decide) fun h => absurd h (by decide)]
      rfl
  | cons c body ih =>
    obtain ⟨hc, hbody⟩ := List.ne_and_not_mem_of_not_mem_cons hbody
    rw [List.cons_append, stripLineComments.inComment, ih hbody]
    · rfl
    · exact fun h => hc h.symm

/-- The scan blanks the comments and nothing else. -/
theorem strip_text (h : WellFormed pieces) :
    stripLineComments false (text pieces) = (marked pieces).map blank := by
  induction pieces with
  | nil => rfl
  | cons piece rest ih =>
    rw [marked_cons, List.map_append]
    rcases piece with c | ⟨body, _ | _⟩ | body
    · obtain ⟨hquote, hslashes, hrest⟩ := h
      rw [text_plain, strip_plain hquote hslashes, ih hrest]
      rfl
    · obtain ⟨hbody, rfl⟩ := h
      rw [text_literal_open, text_nil, List.append_nil]
      refine (congrArg ('"' :: ·) (strip_open hbody)).trans ?_
      simp [Piece.marked, blank, marked, Function.comp_def]
    · obtain ⟨hbody, hrest⟩ := h
      rw [text_literal_closed]
      refine (congrArg ('"' :: ·) (strip_literal hbody (text rest))).trans ?_
      simp [Piece.marked, blank, Function.comp_def, ih hrest]
    · obtain ⟨hbody, hend, hrest⟩ := h
      rw [text_comment]
      refine (congrArg (' ' :: ' ' :: ·) (strip_comment hbody hend)).trans ?_
      simp [Piece.marked, blank, Function.comp_def, ih hrest]

end Scan

/-! ## After the scan -/

section Blanked

variable {pieces : List Piece}

/-- The pieces after the scan. -/
def Piece.blanked : Piece → List Piece
  | .comment body => List.replicate (body.length + 2) (.plain ' ')
  | piece => [piece]

def blanked (pieces : List Piece) : List Piece :=
  pieces.flatMap Piece.blanked

theorem text_append (pieces rest : List Piece) : text (pieces ++ rest) = text pieces ++ text rest := by
  simp [text, marked]

theorem text_replicate_plain (n : ℕ) (c : Char) :
    text (List.replicate n (.plain c)) = List.replicate n c := by
  induction n with
  | zero => rfl
  | succ n ih => rw [List.replicate_succ, text_plain, ih, List.replicate_succ]

theorem text_blanked (pieces : List Piece) : text (blanked pieces) = (marked pieces).map blank := by
  induction pieces with
  | nil => rfl
  | cons piece rest ih =>
    rw [blanked, List.flatMap_cons, text_append, marked_cons, List.map_append]
    refine congrArg₂ (· ++ ·) ?_ ih
    rcases piece with c | ⟨body, _ | _⟩ | body
    · rfl
    · simp [Piece.blanked, Piece.marked, blank, Function.comp_def]
    · simp [Piece.blanked, Piece.marked, blank, Function.comp_def]
    · rw [Piece.blanked, text_replicate_plain]
      simp [Piece.marked, blank, Function.comp_def, List.replicate_succ]

/-- No new slash comes first. -/
theorem head?_text_blanked (h : (text pieces).head? ≠ some '/') :
    (text (blanked pieces)).head? ≠ some '/' := by
  rw [text_blanked]
  rw [text] at h
  rw [List.head?_map] at h ⊢
  cases hfirst : (marked pieces).head? with
  | none => simp
  | some first =>
    rw [hfirst] at h
    simp only [Option.map_some, ne_eq, Option.some.injEq] at h ⊢
    unfold blank
    split
    · decide
    · exact h

theorem wellFormed_spaces (n : ℕ) (h : WellFormed pieces) :
    WellFormed (List.replicate n (.plain ' ') ++ pieces) := by
  induction n with
  | zero => exact h
  | succ n ih => exact ⟨by decide, fun hc => absurd hc (by decide), ih⟩

theorem WellFormed.blanked (h : WellFormed pieces) : WellFormed (blanked pieces) := by
  induction pieces with
  | nil => trivial
  | cons piece rest ih =>
    rcases piece with c | ⟨body, _ | _⟩ | body
    · obtain ⟨hquote, hslashes, hrest⟩ := h
      exact ⟨hquote, fun hc => head?_text_blanked (hslashes hc), ih hrest⟩
    · obtain ⟨hbody, rfl⟩ := h
      exact ⟨hbody, rfl⟩
    · obtain ⟨hbody, hrest⟩ := h
      exact ⟨hbody, ih hrest⟩
    · obtain ⟨-, -, hrest⟩ := h
      exact wellFormed_spaces (body.length + 2) (ih hrest)

theorem not_comment_of_mem_blanked {x : Region × Char} (h : x ∈ marked (blanked pieces)) :
    x.1 ≠ .comment := by
  obtain ⟨piece, hpiece, hx⟩ := List.mem_flatMap.mp h
  obtain ⟨original, -, hblanked⟩ := List.mem_flatMap.mp hpiece
  rw [Piece.region_of_mem hx]
  cases original with
  | comment body =>
    rw [List.eq_of_mem_replicate hblanked]
    decide
  | _ =>
    rw [List.mem_singleton.mp hblanked]
    exact nofun

theorem strip_strip (source : List Char) :
    stripLineComments false (stripLineComments false source) = stripLineComments false source := by
  obtain ⟨pieces, hwf, rfl⟩ := exists_pieces source
  rw [strip_text hwf, ← text_blanked, strip_text hwf.blanked, text]
  refine List.map_congr_left fun x hx => ?_
  exact if_neg (not_comment_of_mem_blanked hx)

/-- Neighbours that are both slashes are in a literal. -/
def SlashesApart (x y : Region × Char) : Prop :=
  x.2 = '/' → y.2 = '/' → x.1 = .literal ∧ y.1 = .literal

theorem slashesApart_literal {body : List Char} {closed : Bool} :
    (Piece.marked (.literal body closed)).IsChain SlashesApart := by
  refine List.Pairwise.isChain (List.pairwise_of_forall_mem_list fun x hx y hy => ?_)
  exact fun _ _ => ⟨Piece.region_of_mem hx, Piece.region_of_mem hy⟩

theorem slashesApart_marked (h : WellFormed pieces)
    (hcode : ∀ x ∈ marked pieces, x.1 ≠ .comment) : (marked pieces).IsChain SlashesApart := by
  induction pieces with
  | nil => exact .nil
  | cons piece rest ih =>
    rw [marked_cons] at hcode ⊢
    obtain ⟨hpiece, hrest⟩ := List.forall_mem_append.mp hcode
    refine List.isChain_append.mpr ?_
    rcases piece with c | ⟨body, _ | _⟩ | body
    · obtain ⟨-, hslashes, hwf⟩ := h
      refine ⟨.singleton _, ih hwf hrest, fun x hx y hy hc hc' => ?_⟩
      obtain rfl : (.code, c) = x := by simpa [Piece.marked] using hx
      refine absurd ?_ (hslashes hc)
      rw [text, List.head?_map, Option.mem_def.mp hy]
      exact congrArg some hc'
    · obtain ⟨-, rfl⟩ := h
      exact ⟨slashesApart_literal, .nil, fun _ _ y hy => by cases hy⟩
    · obtain ⟨-, hwf⟩ := h
      refine ⟨slashesApart_literal, ih hwf hrest, fun x hx y hy hc => ?_⟩
      have hlast : (Piece.marked (.literal body true)).getLast? = some (.literal, '"') := by
        rw [Piece.marked, if_pos rfl, ← List.cons_append, List.getLast?_concat]
      obtain rfl : (.literal, '"') = x := by simpa [hlast] using hx
      exact absurd hc (show '"' ≠ '/' by decide)
    · exact absurd rfl (hpiece (.comment, '/') List.mem_cons_self)

theorem not_comment_of_strip_eq (h : WellFormed pieces)
    (hsame : stripLineComments false (text pieces) = text pieces) :
    ∀ x ∈ marked pieces, x.1 ≠ .comment := by
  intro x hx hcomment
  obtain ⟨piece, hpiece, hmem⟩ := List.mem_flatMap.mp hx
  rw [Piece.region_of_mem hmem] at hcomment
  cases piece with
  | comment body =>
    rw [strip_text h, text] at hsame
    have hslash : ((.comment, '/') : Region × Char) ∈ marked pieces :=
      List.mem_flatMap.mpr ⟨.comment body, hpiece, List.mem_cons_self⟩
    exact absurd (List.map_inj_left.mp hsame _ hslash) (by decide)
  | _ => cases hcomment

end Blanked

theorem WellFormed.newline_not_mem {pieces : List Piece} (h : WellFormed pieces)
    {body : List Char} (hmem : .comment body ∈ pieces) : '\n' ∉ body := by
  induction pieces with
  | nil => cases hmem
  | cons piece rest ih =>
    rcases List.mem_cons.mp hmem with rfl | hrest
    · exact h.1
    · rcases piece with c | ⟨other, _ | _⟩ | other
      · exact ih h.2.2 hrest
      · rw [h.2] at hrest
        cases hrest
      · exact ih h.2 hrest
      · exact ih h.2.2 hrest

theorem newline_iff {pieces : List Piece} (h : WellFormed pieces) {x : Region × Char}
    (hx : x ∈ marked pieces) : blank x = '\n' ↔ x.2 = '\n' := by
  by_cases hregion : x.1 = .comment
  · obtain ⟨piece, hpiece, hmem⟩ := List.mem_flatMap.mp hx
    rw [Piece.region_of_mem hmem] at hregion
    cases piece with
    | comment body =>
      have hbody := h.newline_not_mem hpiece
      have hcomment : x.1 = .comment := Piece.region_of_mem hmem
      rw [blank, if_pos hcomment]
      refine iff_of_false (by decide) fun hnewline => ?_
      rcases List.mem_cons.mp hmem with rfl | hmem
      · exact absurd hnewline (show '/' ≠ '\n' by decide)
      rcases List.mem_cons.mp hmem with rfl | hmem
      · exact absurd hnewline (show '/' ≠ '\n' by decide)
      obtain ⟨c, hc, rfl⟩ := List.mem_map.mp hmem
      exact hbody (hnewline ▸ hc)
    | _ => cases hregion
  · rw [blank, if_neg hregion]

/-- For every source and its pieces: the scan gives a text of the same length with its newlines in
the same places, in which the comments are spaces and all else is as it was. The result has no two
slashes in a row outside of a literal, and a second scan does not change it. -/
theorem comments_stripped_in_place (source : String) :
    (∃ pieces, WellFormed pieces ∧ text pieces = source.toList) ∧
      (∀ pieces, WellFormed pieces → text pieces = source.toList →
        stripLineComments false source.toList = (marked pieces).map blank) ∧
      (stripLineComments false source.toList).length = source.length ∧
      (∀ i : ℕ, (stripLineComments false source.toList)[i]? = some '\n' ↔
        source.toList[i]? = some '\n') ∧
      (∀ pieces, WellFormed pieces → text pieces = stripLineComments false source.toList →
        (marked pieces).IsChain SlashesApart) ∧
      stripLineComments false (stripLineComments false source.toList) =
        stripLineComments false source.toList := by
  obtain ⟨pieces, hwf, htext⟩ := exists_pieces source.toList
  refine ⟨⟨pieces, hwf, htext⟩, ?_, ?_, ?_, ?_, strip_strip _⟩
  · rintro pieces hwf htext
    rw [← htext, strip_text hwf]
  · rw [← htext, strip_text hwf, List.length_map, ← String.length_toList, ← htext, text,
      List.length_map]
  · intro i
    rw [← htext, strip_text hwf, text, List.getElem?_map, List.getElem?_map]
    cases hi : (marked pieces)[i]? with
    | none => rfl
    | some x =>
      simpa using newline_iff hwf (List.mem_of_getElem? hi)
  · intro pieces hwf htext
    refine slashesApart_marked hwf (not_comment_of_strip_eq hwf ?_)
    rw [htext, strip_strip]

end Source

end MeowChain.Compiler
