import SecurityRules.Text.GraphemeClass
import SecurityRules.Text.Utf8

/-!
# Display width

The number of terminal cells of a text. A reader takes a base and its marks, a flag or a joined emoji for one
character; such a cluster is as wide as the first of its code points that has a width.
-/

namespace SecurityRules.Text

/-!
## Cells of a character

How many cells of a terminal one code point takes: two for wide and full-width characters of East Asian
scripts and emoji, none for controls and combining marks, one for all others.
-/

/-- The wide and full-width code points. -/
def wideRanges : CodeRanges :=
  [0x1100, 0x1160, 0x231A, 0x231C, 0x2329, 0x232B, 0x23E9, 0x23ED, 0x23F0, 0x23F1, 0x23F3, 0x23F4,
  0x25FD, 0x25FF, 0x2614, 0x2616, 0x2648, 0x2654, 0x267F, 0x2680, 0x2693, 0x2694, 0x26A1, 0x26A2,
  0x26AA, 0x26AC, 0x26BD, 0x26BF, 0x26C4, 0x26C6, 0x26CE, 0x26CF, 0x26D4, 0x26D5, 0x26EA, 0x26EB,
  0x26F2, 0x26F4, 0x26F5, 0x26F6, 0x26FA, 0x26FB, 0x26FD, 0x26FE, 0x2705, 0x2706, 0x270A, 0x270C,
  0x2728, 0x2729, 0x274C, 0x274D, 0x274E, 0x274F, 0x2753, 0x2756, 0x2757, 0x2758, 0x2795, 0x2798,
  0x27B0, 0x27B1, 0x27BF, 0x27C0, 0x2B1B, 0x2B1D, 0x2B50, 0x2B51, 0x2B55, 0x2B56, 0x2E80, 0x2E9A,
  0x2E9B, 0x2EF4, 0x2F00, 0x2FD6, 0x2FF0, 0x303F, 0x3041, 0x3097, 0x3099, 0x3100, 0x3105, 0x3130,
  0x3131, 0x318F, 0x3190, 0x31E4, 0x31EF, 0x321F, 0x3220, 0x3248, 0x3250, 0x4DC0, 0x4E00, 0xA48D,
  0xA490, 0xA4C7, 0xA960, 0xA97D, 0xAC00, 0xD7A4, 0xF900, 0xFB00, 0xFE10, 0xFE1A, 0xFE30, 0xFE53,
  0xFE54, 0xFE67, 0xFE68, 0xFE6C, 0xFF01, 0xFF61, 0xFFE0, 0xFFE7, 0x16FE0, 0x16FE5, 0x16FF0,
  0x16FF2, 0x17000, 0x187F8, 0x18800, 0x18CD6, 0x18D00, 0x18D09, 0x1AFF0, 0x1AFF4, 0x1AFF5,
  0x1AFFC, 0x1AFFD, 0x1AFFF, 0x1B000, 0x1B123, 0x1B132, 0x1B133, 0x1B150, 0x1B153, 0x1B155,
  0x1B156, 0x1B164, 0x1B168, 0x1B170, 0x1B2FC, 0x1F004, 0x1F005, 0x1F0CF, 0x1F0D0, 0x1F18E,
  0x1F18F, 0x1F191, 0x1F19B, 0x1F200, 0x1F203, 0x1F210, 0x1F23C, 0x1F240, 0x1F249, 0x1F250,
  0x1F252, 0x1F260, 0x1F266, 0x1F300, 0x1F321, 0x1F32D, 0x1F336, 0x1F337, 0x1F37D, 0x1F37E,
  0x1F394, 0x1F3A0, 0x1F3CB, 0x1F3CF, 0x1F3D4, 0x1F3E0, 0x1F3F1, 0x1F3F4, 0x1F3F5, 0x1F3F8,
  0x1F43F, 0x1F440, 0x1F441, 0x1F442, 0x1F4FD, 0x1F4FF, 0x1F53E, 0x1F54B, 0x1F54F, 0x1F550,
  0x1F568, 0x1F57A, 0x1F57B, 0x1F595, 0x1F597, 0x1F5A4, 0x1F5A5, 0x1F5FB, 0x1F650, 0x1F680,
  0x1F6C6, 0x1F6CC, 0x1F6CD, 0x1F6D0, 0x1F6D3, 0x1F6D5, 0x1F6D8, 0x1F6DC, 0x1F6E0, 0x1F6EB,
  0x1F6ED, 0x1F6F4, 0x1F6FD, 0x1F7E0, 0x1F7EC, 0x1F7F0, 0x1F7F1, 0x1F90C, 0x1F93B, 0x1F93C,
  0x1F946, 0x1F947, 0x1FA00, 0x1FA70, 0x1FA7D, 0x1FA80, 0x1FA89, 0x1FA90, 0x1FABE, 0x1FABF,
  0x1FAC6, 0x1FACE, 0x1FADC, 0x1FAE0, 0x1FAE9, 0x1FAF0, 0x1FAF9, 0x20000, 0x2FFFE, 0x30000,
  0x3FFFE]

/-- Combining and invisible code points from U+0300 on. -/
def hiddenRanges : CodeRanges :=
  [0x300, 0x370, 0x483, 0x48A, 0x70F, 0x710, 0x7EB, 0x7F4, 0xC00, 0xC01, 0xC04, 0xC05, 0xCF3,
  0xCF4, 0xD00, 0xD02, 0x135D, 0x1360, 0x180B, 0x180F, 0x1A7F, 0x1A80, 0x1AB0, 0x1ACF, 0x1B6B,
  0x1B74, 0x1DC0, 0x1E00, 0x200B, 0x2010, 0x2028, 0x202F, 0x206A, 0x2070, 0x20D0, 0x20F1, 0x2CEF,
  0x2CF2, 0x2DE0, 0x2E00, 0x3099, 0x309B, 0xA66F, 0xA673, 0xA674, 0xA67E, 0xA69E, 0xA6A0, 0xA6F0,
  0xA6F2, 0xA8E0, 0xA8F2, 0xD800, 0xE000, 0xFE20, 0xFE30, 0xFEFF, 0xFF00, 0xFFF9, 0xFFFC, 0xFFFE,
  0x10000, 0x101FD, 0x101FE, 0x10376, 0x1037B, 0x10EAB, 0x10EAD, 0x10F46, 0x10F51, 0x10F82,
  0x10F86, 0x11300, 0x11302, 0x1133B, 0x1133D, 0x11366, 0x1136D, 0x11370, 0x11375, 0x16AF0,
  0x16AF5, 0x1CF00, 0x1CF2E, 0x1CF30, 0x1CF47, 0x1D165, 0x1D16A, 0x1D16D, 0x1D173, 0x1D17B,
  0x1D183, 0x1D185, 0x1D18C, 0x1D1AA, 0x1D1AE, 0x1D242, 0x1D245, 0x1E000, 0x1E007, 0x1E008,
  0x1E019, 0x1E01B, 0x1E022, 0x1E023, 0x1E025, 0x1E026, 0x1E02B, 0x1E08F, 0x1E090, 0x1E8D0,
  0x1E8D7]

/-- The number of cells of one code point. -/
def cells (code : Nat) : Nat :=
  if code < 0x20 then 0
  else if (0x7F ≤ code && code ≤ 0x9F) || code == 0xAD then 0
  else if code < 0x300 then 1
  else if hiddenRanges.has code then 0
  else if wideRanges.has code then 2
  else 1

/-! ## Clusters -/

/-- One unit of text for finding clusters. -/
structure Unit where
  kind : GraphemeClass
  bytes : Bytes

/-- The number of bytes that belong together at the head of `lead :: rest`, judged by the lead byte and the
continuation bytes behind it alone; none if the text ends before it is complete. -/
def unitSize? (lead : UInt8) (rest : Bytes) : Option Nat :=
  let wanted :=
    if lead < 0xC2 || 0xF8 ≤ lead then 0 else if lead < 0xE0 then 1 else if lead < 0xF0 then 2 else 3
  if rest.length < wanted then none
  else some (1 + ((rest.take wanted).takeWhile Utf8.isContinuation).length)

/-- The class of the unit at the head of a text; malformed input has none. -/
def unitClass (lead : UInt8) (rest : Bytes) (size : Nat) : GraphemeClass :=
  let d := Utf8.decodeFrom lead rest
  if Utf8.isMalformed d || d.size != size then .other else graphemeClass d.code

/-- The units of a text. Bytes of a last character that is not complete are one unit without a class, marked
by `none`. -/
def unitsOf (s : Bytes) : List (Option GraphemeClass × Bytes) :=
  match s with
  | [] => []
  | b :: rest =>
    match unitSize? b rest with
    | none => [(none, b :: rest)]
    | some size =>
      (some (unitClass b rest size), b :: rest.take (size - 1)) :: unitsOf (rest.drop (size - 1))
termination_by s.length
decreasing_by simp only [List.length_drop, List.length_cons]; omega

/-- What is known of a cluster so far: its last class, the last two classes that are no extensions, and the
number of pairs of regional indicators. -/
structure ClusterState where
  last : GraphemeClass
  previous : GraphemeClass := .other
  beforePrevious : GraphemeClass := .other
  regionalPairs : Nat := 0

/-- The state with its last class taken into account. -/
def ClusterState.settle (s : ClusterState) : ClusterState :=
  if s.last = .extend then s else { s with beforePrevious := s.previous, previous := s.last }

/-- Whether a class ends every cluster it stands next to. -/
def isControlClass : GraphemeClass → Bool
  | .control | .carriageReturn | .lineFeed => true
  | _ => false

/-- The state behind `next` if it belongs to the same cluster. -/
def ClusterState.extendBy? (s : ClusterState) (next : GraphemeClass) : Option ClusterState :=
  let s := s.settle
  let joined := some { s with last := next }
  match s.last, next with
  | .carriageReturn, .lineFeed => joined
  | .regional, .regional =>
    if s.regionalPairs % 2 = 0 then
      some { s with last := next, regionalPairs := s.regionalPairs + 1 }
    else none
  | .hangulL, .hangulL | .hangulL, .hangulV | .hangulL, .hangulLV | .hangulL, .hangulLVT
  | .hangulLV, .hangulV | .hangulLV, .hangulT | .hangulV, .hangulV | .hangulV, .hangulT
  | .hangulLVT, .hangulT | .hangulT, .hangulT => joined
  | last, next =>
    if isControlClass last || isControlClass next then none
    else if next = .extend || next = .joiner || next = .spacingMark || last = .leading then joined
    else if next = .pictograph && last = .joiner && s.beforePrevious = .pictograph then joined
    else none

/-- The bytes of the units that belong to a cluster, and the units behind it. -/
def clusterRest (s : ClusterState) :
    List (Option GraphemeClass × Bytes) → Bytes × List (Option GraphemeClass × Bytes)
  | [] => ([], [])
  | (none, bytes) :: rest => (bytes, rest)
  | (some kind, bytes) :: rest =>
    match s.extendBy? kind with
    | none => ([], (some kind, bytes) :: rest)
    | some s =>
      let (more, rest) := clusterRest s rest
      (bytes ++ more, rest)

theorem length_clusterRest_le (s : ClusterState) (us : List (Option GraphemeClass × Bytes)) :
    (clusterRest s us).2.length ≤ us.length := by
  induction us generalizing s with
  | nil => simp [clusterRest]
  | cons u rest ih =>
    obtain ⟨kind, bytes⟩ := u
    cases kind with
    | none => simp [clusterRest]
    | some kind =>
      simp only [clusterRest]
      split
      · simp
      · exact Nat.le_succ_of_le (ih _)

/-- The clusters of a list of units. -/
def clusters (us : List (Option GraphemeClass × Bytes)) : List Bytes :=
  match us with
  | [] => []
  | (none, bytes) :: rest => bytes :: clusters rest
  | (some kind, bytes) :: rest =>
    let joined := clusterRest { last := kind } rest
    (bytes ++ joined.1) :: clusters joined.2
termination_by us.length
decreasing_by
  · simp
  · have := length_clusterRest_le { last := kind } rest
    simp only [List.length_cons]
    omega

/-- The width of a cluster: that of its first code point with a width. -/
def clusterWidth (cluster : Bytes) : Nat :=
  (((Utf8.decodeAll cluster).map fun d => cells d.code).find? (0 < ·)).getD 0

/-- The number of terminal cells of a text. -/
def width (s : Bytes) : Nat := ((clusters (unitsOf s)).map clusterWidth).sum

/-! ## Shortened text -/

/-- As many whole clusters as fit into a number of cells. -/
def fitting (room : Nat) : List Bytes → Bytes
  | [] => []
  | cluster :: rest =>
    if clusterWidth cluster ≤ room then cluster ++ fitting (room - clusterWidth cluster) rest else []

/-- The text in at most `limit` terminal cells. What is cut off is shown by three dots, if there is room for
more than them. A limit that is not positive is none. -/
def shortened (s : Bytes) (limit : Int) : Bytes :=
  if limit ≤ 0 || (width s : Int) ≤ limit then s
  else
    let tail : Bytes := if limit ≤ 3 then "" else "..."
    fitting (limit.toNat - tail.length) (clusters (unitsOf s)) ++ tail

end SecurityRules.Text
