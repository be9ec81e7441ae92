import Mathlib.Data.List.DropRight
import SecurityRules.Proofs.Server.Input
import SecurityRules.Proofs.Text.Fields

/-!
# Reading what was written

Framed messages written one behind the other are read back in order and to the last byte, whatever their payloads look
like. Header lines of other names may stand around the one that gives the length.
-/

namespace SecurityRules.Server

namespace Frame

/-! ## Messages with further header lines -/

/-- A header line, without its line feed, that is not empty and gives no length: no colon stands in it, or the name in
front of the colon is another one. -/
structure IsFurther (line : Bytes) : Prop where
  oneLine : 0x0A ∉ line
  filled : ∃ b ∈ line, b ≠ 0x0D
  other : 0x3A ∈ line →
    (Text.trimBlanks (line.takeWhile (· != 0x3A))).map Bytes.toLowerByte ≠ Bytes.ofString "content-length"

/-- A payload, and the header lines around the one that gives its length. -/
structure Parcel where
  before : List Bytes := []
  payload : Bytes
  after : List Bytes := []

/-- What can be sent: the payload is not too long, and the lines around its length are further ones. -/
structure Parcel.Sendable (p : Parcel) : Prop where
  fits : p.payload.length ≤ maxMessageSize
  before : ∀ line ∈ p.before, IsFurther line
  after : ∀ line ∈ p.after, IsFurther line

/-- Header lines, each with its line feed. -/
def headerLines (lines : List Bytes) : Bytes := lines.flatMap (· ++ [0x0A])

/-- The header that gives a length, without its line end. -/
def lengthField (size : Nat) : Bytes := "Content-Length: " ++ Bytes.decimal size

/-- A payload framed by all of its header lines. -/
def Parcel.written (p : Parcel) : Bytes :=
  headerLines p.before ++ (lengthField p.payload.length ++ ("\r\n" ++ (headerLines p.after ++ ("\r\n" ++ p.payload))))

/-- A payload with no further header lines is framed as messages are written. -/
theorem written_payload (payload : Bytes) : ({ payload } : Parcel).written = write payload := by
  simp only [Parcel.written, write, lengthField, headerLines, List.flatMap_nil, List.nil_append, List.append_assoc]
  rfl

/-! ## One header line after the other -/

theorem lengthHeader?_dropLineEnd {line : Bytes} (further : IsFurther line) :
    lengthHeader? (dropLineEnd line) = none := by
  rw [lengthHeader?]
  cases cut : Bytes.cut? 0x3A (dropLineEnd line) with
  | none => rfl
  | some pieces =>
    obtain ⟨name, value⟩ := pieces
    obtain ⟨shortened, outside⟩ := Bytes.eq_of_cut? cut
    -- dropping the line end leaves the name in front of the colon as it is
    obtain ⟨ending, whole⟩ : dropLineEnd line <+: line := List.rdropWhile_prefix _ _
    rw [shortened, List.append_assoc, List.cons_append] at whole
    have named : line.takeWhile (· != 0x3A) = name := by
      have before : ∀ b ∈ name, (b != 0x3A) = true := fun b inside => by
        rw [bne_iff_ne]
        exact fun same => outside (same ▸ inside)
      rw [← whole, List.takeWhile_append_of_pos before, List.takeWhile_cons_of_neg (by decide), List.append_nil]
    have other := further.other (whole ▸ List.mem_append_right _ (List.mem_cons_self ..))
    rw [named] at other
    exact if_neg (by simpa using other)

theorem read_further {line : Bytes} (further : IsFurther line) (known : Option Nat) (rest : Bytes) :
    read known (line ++ 0x0A :: rest) = read known rest := by
  obtain ⟨b, inside, solid⟩ := further.filled
  have filled : (dropLineEnd line).isEmpty = false := by
    rw [List.isEmpty_eq_false_iff]
    intro empty
    have ending := List.rdropWhile_eq_nil_iff.mp empty b inside
    simp only [Bool.or_eq_true, beq_iff_eq] at ending
    exact ending.elim solid fun same => further.oneLine (same ▸ inside)
  rw [read_of_cut (Bytes.cut?_of_notMem further.oneLine rest), readLine.eq_def, filled, lengthOf,
    lengthHeader?_dropLineEnd further]
  rfl

theorem read_headerLines {lines : List Bytes} (further : ∀ line ∈ lines, IsFurther line) (known : Option Nat)
    (rest : Bytes) : read known (headerLines lines ++ rest) = read known rest := by
  induction lines with
  | nil => rfl
  | cons line lines ih =>
    have shape : headerLines (line :: lines) ++ rest = line ++ 0x0A :: (headerLines lines ++ rest) := by
      simp only [headerLines, List.flatMap_cons, List.append_assoc, List.cons_append, List.nil_append]
    rw [shape, read_further (further line (List.mem_cons_self ..)),
      ih fun other member => further other (List.mem_cons_of_mem _ member)]

/-! ## The line that gives the length -/

theorem lengthOf_lengthField {size : Nat} (fits : size ≤ maxMessageSize) (known : Option Nat) :
    lengthOf (lengthField size) known = .ok (some size) := by
  have cut : Bytes.cut? 0x3A (lengthField size) = some (Bytes.ofString "Content-Length", 0x20 :: Bytes.decimal size) :=
    @Bytes.cut?_of_notMem 0x3A (Bytes.ofString "Content-Length") (by decide +kernel) _
  have value : Text.trimBlanks (0x20 :: Bytes.decimal size) = Bytes.decimal size :=
    @Text.trimBlanks_decimal [0x20] (List.forall_mem_singleton.mpr rfl) (List.forall_mem_singleton.mpr rfl) size
  have named : lengthHeader? (lengthField size) = some (Bytes.decimal size) := by
    rw [lengthHeader?, cut]
    dsimp only
    rw [if_pos (by decide +kernel), value]
  have small : (size : Int) ≤ maxMessageSize := Int.ofNat_le.mpr fits
  rw [lengthOf, named]
  dsimp only
  rw [Number.signed?_decimal (Int.le_trans small (by decide))]
  dsimp only
  rw [if_neg (by omega), if_neg (by omega), Int.toNat_natCast]

theorem getLast_lengthField (size : Nat) (filled : lengthField size ≠ []) :
    Bytes.isDigit ((lengthField size).getLast filled) = true := by
  have same : (lengthField size).getLast filled = (Bytes.decimal size).getLast (Bytes.decimal_ne_nil size) :=
    List.getLast_append_of_ne_nil _ (Bytes.decimal_ne_nil size)
  rw [same]
  exact Bytes.isDigit_of_mem_decimal (List.getLast_mem _)

theorem dropLineEnd_lengthField (size : Nat) : dropLineEnd (lengthField size ++ [0x0D]) = lengthField size := by
  have kept : dropLineEnd (lengthField size) = lengthField size := by
    refine List.rdropWhile_eq_self_iff.mpr fun filled ending => ?_
    have digit := getLast_lengthField size filled
    simp only [Bool.or_eq_true, beq_iff_eq] at ending
    obtain same | same := ending <;> exact absurd (same ▸ digit) (by decide)
  exact (List.rdropWhile_concat_pos _ _ _ (by decide)).trans kept

theorem read_lengthField {size : Nat} (fits : size ≤ maxMessageSize) (known : Option Nat) (rest : Bytes) :
    read known (lengthField size ++ ("\r\n" ++ rest)) = read (some size) rest := by
  have shape : (lengthField size ++ ("\r\n" ++ rest) : Bytes) = (lengthField size ++ [0x0D]) ++ 0x0A :: rest := by
    rw [List.append_assoc]
    rfl
  have oneLine : 0x0A ∉ lengthField size ++ [0x0D] := by
    simp only [lengthField, List.mem_append, not_or]
    exact ⟨⟨by decide, fun member => absurd (Bytes.isDigit_of_mem_decimal member) (by decide)⟩, by decide⟩
  have filled : (lengthField size).isEmpty = false := rfl
  rw [shape, read_of_cut (Bytes.cut?_of_notMem oneLine rest), readLine.eq_def, dropLineEnd_lengthField, filled,
    lengthOf_lengthField fits]
  rfl

/-! ## Whole messages -/

theorem read_payload (payload rest : Bytes) :
    read (some payload.length) ("\r\n" ++ (payload ++ rest)) = .message payload rest := by
  have cut : Bytes.cut? 0x0A ("\r\n" ++ (payload ++ rest) : Bytes) = some ([0x0D], payload ++ rest) :=
    @Bytes.cut?_of_notMem 0x0A [0x0D] (by decide) _
  have enough : ¬(payload ++ rest).length < payload.length := by
    rw [List.length_append]
    omega
  rw [read_of_cut cut]
  change Frame.payload payload.length (payload ++ rest) = _
  rw [Frame.payload, if_neg enough, List.take_left, List.drop_left]

/-- The message in front is read to its last byte, and nothing behind it is. -/
theorem next_written {p : Parcel} (sendable : p.Sendable) (rest : Bytes) :
    next (p.written ++ rest) = .message p.payload rest := by
  rw [Parcel.written]
  simp only [List.append_assoc]
  rw [next, read_headerLines sendable.before, read_lengthField sendable.fits, read_headerLines sendable.after,
    read_payload]

/-- Messages are read until none is there; what is left is the input that starts with none. -/
def readAll (s : Bytes) : List Bytes × Bytes :=
  match _found : next s with
  | .message payload rest => (payload :: (readAll rest).1, (readAll rest).2)
  | _ => ([], s)
termination_by s.length
decreasing_by all_goals exact length_lt_of_read (by assumption)

theorem Carries.readAll_eq {s : Bytes} {payloads : List Bytes} (carries : Carries s payloads) :
    readAll s = (payloads, []) := by
  induction carries with
  | done =>
    rw [readAll]
    split
    · rename_i found
      cases next_nil.symm.trans found
    · rfl
  | message head _ ih =>
    rw [readAll]
    split
    · rename_i found
      cases head.symm.trans found
      rw [ih]
    · rename_i none
      exact absurd head (none _ _)

theorem Carries.of_sendable {parcels : List Parcel} (sendable : ∀ p ∈ parcels, p.Sendable) :
    Carries (parcels.flatMap Parcel.written) (parcels.map Parcel.payload) := by
  induction parcels with
  | nil => exact .done
  | cons p parcels ih =>
    rw [List.flatMap_cons, List.map_cons]
    exact .message (next_written (sendable p (List.mem_cons_self ..)) _)
      (ih fun other member => sendable other (List.mem_cons_of_mem _ member))

/-- Messages sent one behind the other are read back in order, and then the input is at its end. Each is read to its own
last byte whatever stands behind it, also when other header lines stand around the one that gives its length. -/
theorem readAll_written (parcels : List Parcel) (sendable : ∀ p ∈ parcels, p.Sendable) :
    readAll (parcels.flatMap Parcel.written) = (parcels.map Parcel.payload, []) ∧
      next [] = .needHeader ∧
      (∀ p ∈ parcels, ∀ rest, next (p.written ++ rest) = .message p.payload rest) ∧
      ∀ payload, ({ payload } : Parcel).written = write payload :=
  ⟨(Carries.of_sendable sendable).readAll_eq, next_nil, fun p member rest => next_written (sendable p member) rest,
    written_payload⟩

/-- A payload that looks like a message with other lines around its length, and an empty one. -/
def parcelsInParcels : List Parcel :=
  [{ before := [Bytes.ofString "Content-Type: text\r", Bytes.ofString "no name"]
     payload := "Content-Length: 1\r\n\r\n:"
     after := [Bytes.ofString "Content-Length-Hint: 7"] }, { payload := [] }]

theorem readAll_parcelsInParcels :
    (∀ p ∈ parcelsInParcels, p.Sendable) ∧
      readAll (parcelsInParcels.flatMap Parcel.written) = ([Bytes.ofString "Content-Length: 1\r\n\r\n:", []], []) := by
  have sendable : ∀ p ∈ parcelsInParcels, p.Sendable := by
    intro p member
    obtain rfl | member := List.mem_cons.mp member
    · refine ⟨by decide, fun line member => ?_, fun line member => ?_⟩
      · obtain rfl | member := List.mem_cons.mp member
        · exact ⟨by decide, by decide, fun _ => by decide +kernel⟩
        · obtain rfl := List.mem_singleton.mp member
          exact ⟨by decide, by decide, fun colon => absurd colon (by decide)⟩
      · obtain rfl := List.mem_singleton.mp member
        exact ⟨by decide, by decide, fun _ => by decide +kernel⟩
    · obtain rfl := List.mem_singleton.mp member
      exact ⟨by decide, by simp, by simp⟩
  exact ⟨sendable, (readAll_written parcelsInParcels sendable).1⟩

end Frame

end SecurityRules.Server
