import X509Validator.Lib.Lines
import X509Validator.Lib.Split

/-!
# Reading texts line by line

A text of several lines that was put together from parts, and how to take it apart
again. A `Field` says what the next lines are: a fixed line, a line with a value, or
a block of lines, either up to a fixed line or to the end.

* `lines`: the lines of a text.
* `decode_encode`: lines that were written in a format are read back, as long as no
  block contains the line that ends it.
-/

namespace Lines

/-! ## The lines of a text -/

def lines (s : String) : List String := (s.toList.splitOn '\n').map String.ofList

theorem lines_of_singleLine {s : String} (h : SingleLine s) : lines s = [s] := by
  have hne : ∀ c ∈ s.toList, (c == '\n') = false := by
    intro c hc
    rw [beq_eq_false_iff_ne]
    rintro rfl
    exact h hc
  rw [lines, List.splitOn, List.splitOnP_eq_singleton hne, List.map_singleton, String.ofList_toList]

theorem lines_newline (s t : String) : lines (s ++ "\n" ++ t) = lines s ++ lines t := by
  have hlist : (s ++ "\n" ++ t).toList = s.toList ++ '\n' :: t.toList := by
    rw [String.toList_append, String.toList_append, List.append_assoc]
    rfl
  rw [lines, hlist, List.splitOn, List.splitOnP_append_cons _ _ (by rfl), List.map_append]
  rfl

theorem lines_append_newline (s : String) : lines (s ++ "\n") = lines s ++ [""] := by
  have h := lines_newline s ""
  rwa [String.append_empty, lines_of_singleLine (s := "") (by decide)] at h

section

variable {title heading : String} (htitle : SingleLine title) (hheading : SingleLine heading)

include htitle

/-- A title on a line of its own. -/
theorem lines_title (s t : String) :
    lines (s ++ "\n" ++ title ++ "\n" ++ t) = lines s ++ title :: lines t := by
  rw [lines_newline, lines_newline, lines_of_singleLine htitle, List.append_assoc,
    List.singleton_append]

theorem lines_spaced_title (s t : String) :
    lines (s ++ "\n" ++ "\n" ++ title ++ "\n" ++ t) = lines s ++ "" :: title :: lines t := by
  rw [lines_title htitle, lines_append_newline, List.append_assoc, List.singleton_append]

include hheading

theorem lines_heading (t : String) :
    lines (heading ++ "\n" ++ title ++ "\n" ++ t) = heading :: title :: lines t := by
  rw [lines_title htitle, lines_of_singleLine hheading, List.singleton_append]

theorem lines_spaced_heading (t : String) :
    lines (heading ++ "\n" ++ "\n" ++ title ++ "\n" ++ t) =
      heading :: "" :: title :: lines t := by
  rw [lines_spaced_title htitle, lines_of_singleLine hheading, List.singleton_append]

end

/-- Nothing at all, joined by newlines, is an empty line. -/
def orBlank (pieces : List String) : List String :=
  if pieces.isEmpty then [""] else pieces

theorem mem_orBlank {pieces : List String} {s : String} (h : s ∈ orBlank pieces) :
    s = "" ∨ s ∈ pieces := by
  unfold orBlank at h
  split at h
  · exact .inl (List.mem_singleton.mp h)
  · exact .inr h

theorem intercalate_orBlank (separator : String) (pieces : List String) :
    separator.intercalate (orBlank pieces) = separator.intercalate pieces := by
  cases pieces with
  | nil => rfl
  | cons piece rest => rfl

theorem lines_intercalate {pieces : List String} (h : ∀ piece ∈ pieces, SingleLine piece) :
    lines ("\n".intercalate pieces) = orBlank pieces := by
  induction pieces with
  | nil => exact lines_of_singleLine (s := "") (by decide)
  | cons piece rest ih =>
    have hpiece : lines piece = [piece] := lines_of_singleLine (h piece List.mem_cons_self)
    cases rest with
    | nil => rw [String.intercalate_singleton, hpiece]; rfl
    | cons next rest =>
      rw [String.intercalate_cons_cons, lines_newline, hpiece,
        ih fun p hp => h p (List.mem_cons_of_mem piece hp)]
      rfl

/-- Joining adds no other characters than those of the separator. -/
theorem not_mem_intercalate {c : Char} {separator : String} {pieces : List String}
    (hseparator : c ∉ separator.toList) (h : ∀ piece ∈ pieces, c ∉ piece.toList) :
    c ∉ (separator.intercalate pieces).toList := by
  induction pieces with
  | nil => exact List.not_mem_nil
  | cons piece rest ih =>
    have hpiece := h piece List.mem_cons_self
    cases rest with
    | nil => rwa [String.intercalate_singleton]
    | cons next rest =>
      have ih := ih fun p hp => h p (List.mem_cons_of_mem piece hp)
      rw [String.intercalate_cons_cons, String.toList_append, String.toList_append,
        List.mem_append, List.mem_append]
      rintro ((hmem | hmem) | hmem)
      · exact hpiece hmem
      · exact hseparator hmem
      · exact ih hmem

/-! ## Formats -/

inductive Field
  /-- This very line. -/
  | literal (line : String)
  /-- One line. -/
  | line
  /-- The lines before the line `stop`, and that line. -/
  | before (stop : String)
  /-- All further lines. -/
  | rest

def encode : List Field → List (List String) → List String
  | .literal line :: fields, values => line :: encode fields values
  | .line :: fields, value :: values => value ++ encode fields values
  | .before stop :: fields, value :: values => value ++ stop :: encode fields values
  | .rest :: _, value :: _ => value
  | _, _ => []

/-- The values, one list of lines for each field that is not fixed. -/
def decode : List Field → List String → Option (List (List String))
  | [], [] => some []
  | .literal line :: fields, next :: input =>
    if next = line then decode fields input else none
  | .line :: fields, next :: input => (decode fields input).map ([next] :: ·)
  | .before stop :: fields, input =>
    match input.dropWhile (· != stop) with
    | [] => none
    | _ :: input' => (decode fields input').map (input.takeWhile (· != stop) :: ·)
  | [.rest], input => some [input]
  | _, _ => none

/-- Values that can be told apart in a format. -/
def Fits : List Field → List (List String) → Prop
  | [], [] => True
  | .literal _ :: fields, values => Fits fields values
  | .line :: fields, value :: values => (∃ line, value = [line]) ∧ Fits fields values
  | .before stop :: fields, value :: values => stop ∉ value ∧ Fits fields values
  | [.rest], [_] => True
  | _, _ => False

theorem decode_encode {fields : List Field} {values : List (List String)}
    (h : Fits fields values) : decode fields (encode fields values) = some values := by
  induction fields generalizing values with
  | nil =>
    cases values with
    | nil => rfl
    | cons value values => exact absurd h id
  | cons field fields ih =>
    cases field with
    | literal line =>
      rw [encode, decode, if_pos rfl]
      exact ih h
    | line =>
      cases values with
      | nil => exact absurd h id
      | cons value values =>
        obtain ⟨⟨line, rfl⟩, hfits⟩ := h
        rw [encode, List.singleton_append, decode, ih hfits]
        rfl
    | before stop =>
      cases values with
      | nil => exact absurd h id
      | cons value values =>
        obtain ⟨hstop, hfits⟩ := h
        rw [encode, decode, Split.dropWhile_bne hstop, Split.takeWhile_bne hstop]
        show (decode fields (encode fields values)).map _ = _
        rw [ih hfits]
        rfl
    | rest =>
      cases fields with
      | cons field fields => exact absurd h (by cases values <;> exact id)
      | nil =>
        cases values with
        | nil => exact absurd h id
        | cons value values =>
          cases values with
          | nil => rfl
          | cons _ _ => exact absurd h id

end Lines
