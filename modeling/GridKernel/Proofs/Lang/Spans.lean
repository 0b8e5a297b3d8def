import GridKernel.Lang.Listing
import Mathlib.Data.List.Forall2

/-!
# The spans of a listing

A listing has one span for each statement, in the order in which statements are numbered. Each cuts
the header of its statement out of the text, and they follow one another without touching.
-/

namespace GridKernel

/-- The span cuts this part out of the text. -/
def Span.Selects (span : Span) (text part : String) : Prop :=
  ∃ before after, text = before ++ part ++ after ∧ before.utf8ByteSize = span.start ∧
    span.stop = span.start + part.utf8ByteSize

/-! ## Headers in lines -/

namespace ListingLine

/-- The texts of the lines on which a statement begins. -/
def headers (lines : List ListingLine) : List String :=
  lines.filterMap fun l => if l.start then some l.text else none

@[simp] theorem headers_nil : headers [] = [] := rfl

@[simp] theorem headers_cons_start (depth text rest) :
    headers (⟨depth, text, true⟩ :: rest) = text :: headers rest := rfl

@[simp] theorem headers_cons_other (depth text rest) :
    headers (⟨depth, text, false⟩ :: rest) = headers rest := rfl

@[simp] theorem headers_append (a b) :
    headers (a ++ b) = headers a ++ headers b := List.filterMap_append

end ListingLine

open ListingLine

mutual

theorem Stmt.headers_lines (depth : Nat) :
    ∀ s : Stmt, headers (s.lines depth) = s.flatten.map Stmt.header
  | .branch cond thenBody elseBody => by
    have first := Stmt.headers_allLines (depth + 1) thenBody
    have second := Stmt.headers_allLines (depth + 1) elseBody
    cases elseBody with
    | nil => simp [Stmt.lines, Stmt.flatten, Stmt.flattenAll, first]
    | cons s rest => simp [Stmt.lines, Stmt.flatten, first, second]
  | .whileLoop cond body | .doWhile body cond | .block body => by
    have inner := Stmt.headers_allLines (depth + 1) body
    simp [Stmt.lines, Stmt.flatten, inner]
  | .forLoop init cond update body => by
    have first := Stmt.headers_allLines (depth + 1) init
    have inner := Stmt.headers_allLines (depth + 1) body
    simp [Stmt.lines, Stmt.flatten, first, inner]
  | .declare _ _ _ | .expr _ | .breakLoop | .continueLoop | .ret _ => rfl

/-- Statements begin on lines in the order of their ordinals. -/
theorem Stmt.headers_allLines (depth : Nat) :
    ∀ body : List Stmt, headers (Stmt.allLines depth body) = (Stmt.flattenAll body).map Stmt.header
  | [] => rfl
  | s :: rest => by
    have first := Stmt.headers_lines depth s
    have others := Stmt.headers_allLines depth rest
    simp [Stmt.allLines, Stmt.flattenAll, first, others]

end

theorem utf8ByteSize_pos_append (a : String) (some : 0 < b.utf8ByteSize) :
    0 < (a ++ b).utf8ByteSize := by
  rw [String.utf8ByteSize_append]
  omega

/-- Every header ends with a delimiter. -/
theorem Stmt.header_nonempty : ∀ s : Stmt, 0 < s.header.utf8ByteSize
  | .declare _ _ none | .declare _ _ (some _) | .expr _ | .ret (some _) | .branch _ _ _
  | .whileLoop _ _ | .forLoop _ _ _ _ => utf8ByteSize_pos_append _ (by decide)
  | .doWhile _ _ | .breakLoop | .continueLoop | .ret none | .block _ => by
    simp only [Stmt.header]
    decide

/-! ## Spans of lines -/

namespace ListingLine

theorem utf8ByteSize_indent (n) : (String.ofList (List.replicate n ' ')).utf8ByteSize = n := by
  have blank : " ".utf8ByteSize = 1 := rfl
  induction n with
  | zero => rfl
  | succ n ih =>
    simp [List.replicate_succ, ih, blank]
    omega

theorem utf8ByteSize_write (l : ListingLine) :
    l.write.utf8ByteSize = 4 * l.depth + l.text.utf8ByteSize + 1 := by
  have ending : "\n".utf8ByteSize = 1 := rfl
  simp [write, String.utf8ByteSize_append, utf8ByteSize_indent, ending]

/-- Lines one after the other, each ended. -/
def written (lines : List ListingLine) : String := String.join (lines.map write)

theorem written_cons (l rest) : written (l :: rest) = l.write ++ written rest := String.join_cons

/-- The text before the lines and the text after them are of no account. -/
theorem spans_select (lines before after) :
    List.Forall₂ (fun span header => span.Selects (before ++ written lines ++ after) header)
      (spans before.utf8ByteSize lines) (headers lines) := by
  induction lines generalizing before with
  | nil => exact .nil
  | cons l rest ih =>
    obtain ⟨depth, text, start⟩ := l
    set l : ListingLine := ⟨depth, text, start⟩
    have whole : before ++ written (l :: rest) ++ after = before ++ l.write ++ written rest ++ after := by
      rw [written_cons, ← String.append_assoc]
    have others := ih (before ++ l.write)
    rw [String.utf8ByteSize_append] at others
    rw [whole]
    cases start with
    | false => exact others
    | true =>
      refine .cons ⟨before ++ String.ofList (List.replicate (4 * depth) ' '),
        "\n" ++ written rest ++ after, ?_, ?_, rfl⟩ others
      · simp only [write, String.append_assoc]
        rfl
      · rw [String.utf8ByteSize_append, utf8ByteSize_indent]

theorem spans_bounded (lines offset) :
    ∀ span ∈ spans offset lines, offset ≤ span.start ∧
      span.stop < offset + (written lines).utf8ByteSize := by
  induction lines generalizing offset with
  | nil => simp [spans]
  | cons l rest ih =>
    have size := utf8ByteSize_write l
    intro span member
    rw [written_cons, String.utf8ByteSize_append]
    have later : span ∈ spans (offset + l.write.utf8ByteSize) rest →
        offset ≤ span.start ∧
          span.stop < offset + (l.write.utf8ByteSize + (written rest).utf8ByteSize) := by
      intro member
      have bounds := ih _ span member
      omega
    unfold spans at member
    dsimp only at member
    split at member
    · rcases List.mem_cons.mp member with rfl | member
      · dsimp only
        omega
      · exact later member
    · exact later member

/-- Between two headers there is at least the end of a line. -/
theorem spans_apart (lines offset) : (spans offset lines).Pairwise fun a b => a.stop < b.start := by
  induction lines generalizing offset with
  | nil => exact .nil
  | cons l rest ih =>
    have size := utf8ByteSize_write l
    unfold spans
    dsimp only
    split
    · refine .cons (fun span member => ?_) (ih _)
      have bounds := spans_bounded rest _ span member
      dsimp only
      omega
    · exact ih _

end ListingLine

/-! ## Spans of a method -/

/-- There is a span for each of these statements, over its header, and they come one after the
other. -/
structure Listing.Covers (l : Listing) (stmts : List Stmt) : Prop where
  selects : List.Forall₂ (fun span s => span.Selects l.text s.header) l.spans stmts
  inside : ∀ span ∈ l.spans, span.start < span.stop ∧ span.stop ≤ l.text.utf8ByteSize
  apart : l.spans.Pairwise fun a b => a.stop < b.start

namespace Listing.Covers

variable {l : Listing} {stmts : List Stmt}

theorem length_eq (h : l.Covers stmts) : l.spans.length = stmts.length := h.selects.length_eq

/-- The span at an ordinal is that of the statement. -/
theorem selects_at (h : l.Covers stmts) {p : Nat} {s : Stmt} (found : stmts[p]? = some s) :
    ∃ span, l.spans[p]? = some span ∧ span.Selects l.text s.header := by
  obtain ⟨bound, rfl⟩ := List.getElem?_eq_some_iff.mp found
  have bound' : p < l.spans.length := h.length_eq ▸ bound
  exact ⟨_, List.getElem?_eq_getElem bound', h.selects.get bound' bound⟩

end Listing.Covers

theorem Span.nonempty_of_selects {text : String} {spans : List Span} {stmts : List Stmt}
    (selected : List.Forall₂ (fun span s => span.Selects text s.header) spans stmts) :
    ∀ span ∈ spans, span.start < span.stop := by
  induction selected with
  | nil => exact List.forall_mem_nil _
  | @cons span s _ _ first rest ih =>
    obtain ⟨-, -, -, -, size⟩ := first
    have header := s.header_nonempty
    exact List.forall_mem_cons.mpr ⟨by omega, ih⟩

theorem Method.listing_covers (m : Method) : m.listing.Covers (Stmt.flattenAll m.body) := by
  have selected := spans_select (Stmt.allLines 1 m.body) (m.header ++ "\n") "\x7d\n"
  rw [Stmt.headers_allLines, List.forall₂_map_right_iff] at selected
  have bounded := spans_bounded (Stmt.allLines 1 m.body) (m.header ++ "\n").utf8ByteSize
  refine ⟨selected, ?_, spans_apart _ _⟩
  intro span member
  constructor
  · exact Span.nonempty_of_selects selected span member
  · have ends := (bounded span member).2
    have whole : m.listing.text.utf8ByteSize = (m.header ++ "\n").utf8ByteSize +
        (written (Stmt.allLines 1 m.body)).utf8ByteSize + "\x7d\n".utf8ByteSize := by
      rw [← String.utf8ByteSize_append, ← String.utf8ByteSize_append]
      rfl
    omega

end GridKernel
