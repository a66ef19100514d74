import Smrt.Authoring.ModMeta
import Smrt.Lib.Json
import Smrt.Lib.Varint

/-!
# Asking a server what it advertises

A server answers a ping with a packet, which is a length and as many bytes, and a text in it that
lists its mods in one of two shapes (`parseStatus`). The numbers are written in groups of seven bits
(`writeVarint`), and a server may send anything: `readPacket` says which bytes are taken for the
length and how much room is made for what follows.

* `readVarint_writeVarint`, `readString_writeString`: what is written is read back;
* `readVarint_noPanic`, `readString_noPanic`: nothing is read that is not there, whatever the bytes
  are;
* `readPacket_bounded`: five bytes are enough for a length, and there is a most that is made room
  for.
-/

namespace Smrt

namespace Mcping

open Bootstrap (Bytes)
open ModMeta (fromUtf8)

/-! ## The answer -/

structure ServerMod where
  modid : String
  version : String
  deriving DecidableEq

structure ServerStatus where
  version : String
  mods : List ServerMod
  /-- Whether there is a list at all; one that is empty is one. -/
  advertisesMods : Bool

/-- Why there is no answer. A panic is what a program must not do. -/
inductive Failure
  | panic
  | refused (reason : String)
  deriving DecidableEq

/-- What is at the end of a path of members. -/
def pointer (v : Json) : List String → Option Json
  | [] => some v
  | k :: path =>
    match v with
    | .obj o => (o.lookup k).bind fun v => pointer v path
    | _ => none

def asArray : Json → Option (List Json)
  | .arr items => some items
  | _ => none

/-- A mod that is listed, by the member that has its id; a version may be missing. -/
def listedMod (key : String) (v : Json) : Option ServerMod :=
  ((pointer v [key]).bind Json.asStr).map fun modid =>
    ⟨modid, ((pointer v ["version"]).bind Json.asStr).getD ""⟩

def fml1Mod : Json → Option ServerMod := listedMod "modid"

def fml2Mod : Json → Option ServerMod := listedMod "modId"

/-- What a text says that is JSON, in the shape of either age. -/
def statusOf (v : Json) : ServerStatus :=
  let version := ((pointer v ["version", "name"]).bind Json.asStr).getD ""
  match (pointer v ["modinfo", "modList"]).bind asArray,
    (pointer v ["forgeData", "mods"]).bind asArray with
  | some list, _ => ⟨version, list.filterMap fml1Mod, true⟩
  | none, some list => ⟨version, list.filterMap fml2Mod, true⟩
  | none, none => ⟨version, [], false⟩

def parseStatus (parse : String → Option Json) (json : String) : Except Failure ServerStatus :=
  match parse json with
  | some v => .ok (statusOf v)
  | none => .error (.refused "status response is not JSON")

/-! ## The wire -/

/-- A signed number, by its bits. -/
def writeVarint (value : BitVec 32) : Bytes := Varint.write value

def writeString (s : String) : Bytes :=
  writeVarint (BitVec.ofNat 32 s.utf8ByteSize) ++ s.toUTF8.data.toList

def readVarint (buf : Bytes) : Except Failure (BitVec 32 × Bytes) :=
  (Varint.read 0 5 0#32 buf).mapError fun e => .refused <|
    match e with
    | .short => "varint ran off the end"
    | .long => "varint longer than five bytes"

/-- A signed number as a size: one below zero is very large. -/
def asUsize (v : BitVec 32) : ℕ := (v.signExtend 64).toNat

/-- The first bytes, and the others; there have to be as many. -/
def splitAt (buf : Bytes) (n : ℕ) : Except Failure (Bytes × Bytes) :=
  if n ≤ buf.length then .ok (buf.take n, buf.drop n) else .error .panic

def readString (buf : Bytes) : Except Failure (String × Bytes) := do
  let (v, buf) ← readVarint buf
  if buf.length < asUsize v then
    .error (.refused ("string claims " ++ toString (asUsize v) ++ " bytes, " ++
      toString buf.length ++ " remain"))
  else
    let (s, rest) ← splitAt buf (asUsize v)
    match fromUtf8 s with
    | some s => .ok (s, rest)
    | none => .error (.refused "status response is not UTF-8")

def maxResponse : ℕ := 4 * 1024 * 1024

/-- What was read of a packet. -/
structure Packet where
  /-- The bytes that were taken for the length. -/
  lengthBytes : Bytes
  /-- The room that was made for the others. -/
  allocated : ℕ
  body : Except Failure Bytes

section Reading

-- What a server sends, byte by byte, up to where it ends.
variable (stream : ℕ → Option UInt8)

/-- The bytes of the length, so many at most, after those that are there. -/
def readLength : ℕ → Bytes → Bytes × Except Failure Unit
  | 0, seen => (seen, .error (.refused "packet length varint longer than five bytes"))
  | n + 1, seen =>
    match stream seen.length with
    | none => (seen, .error (.refused "reading length"))
    | some b => if b &&& 0x80 = 0 then (seen ++ [b], .ok ()) else readLength n (seen ++ [b])

/-- So many bytes, from a place on. -/
def readExact (start len : ℕ) : Except Failure Bytes :=
  match (List.range len).mapM fun i => stream (start + i) with
  | some body => .ok body
  | none => .error (.refused "reading the status response")

def readPacket : Packet :=
  match readLength stream 5 [] with
  | (bytes, .error e) => ⟨bytes, 0, .error e⟩
  | (bytes, .ok ()) =>
    match readVarint bytes with
    | .error e => ⟨bytes, 0, .error e⟩
    | .ok (v, _) =>
      if maxResponse < asUsize v then
        ⟨bytes, 0,
          .error (.refused ("status response claims " ++ toString (asUsize v) ++ " bytes"))⟩
      else ⟨bytes, asUsize v, readExact stream bytes.length (asUsize v)⟩

/-- What a server advertises, by what it sends. -/
def readStatus (parse : String → Option Json) : Except Failure ServerStatus := do
  let body ← (readPacket stream).body
  let (id, buf) ← readVarint body
  if id ≠ 0#32 then
    .error (.refused ("expected a status response, got packet " ++ toString id.toInt))
  else
    let (json, _) ← readString buf
    parseStatus parse json

end Reading

/-! ## What is read -/

section Facts

variable {buf rest : Bytes} {v : BitVec 32} {s : String}

/-- What is written is read back, whatever follows it. -/
theorem readVarint_writeVarint : readVarint (writeVarint v ++ rest) = .ok (v, rest) := by
  have hlt : v.toNat < 128 ^ 5 := lt_of_lt_of_le v.isLt (by decide)
  rw [readVarint, writeVarint, Varint.read_write hlt]
  simp [Except.mapError]

theorem length_writeVarint : 1 ≤ (writeVarint v).length ∧ (writeVarint v).length ≤ 5 :=
  ⟨List.length_pos_iff.2 Varint.write_ne_nil,
    Varint.length_write_le (lt_of_lt_of_le v.isLt (by decide))⟩

theorem fromUtf8_toUTF8 : fromUtf8 s.toUTF8.data.toList = some s := by
  rw [fromUtf8, Array.toArray_toList]
  exact dif_pos s.isValidUTF8

theorem length_toUTF8 : s.toUTF8.data.toList.length = s.utf8ByteSize := by
  rw [Array.length_toList]
  rfl

/-- A size that fits is the size it is. -/
theorem asUsize_ofNat {n : ℕ} (h : n ≤ 2 ^ 31 - 1) : asUsize (BitVec.ofNat 32 n) = n := by
  have hmsb : (BitVec.ofNat 32 n).msb = false := by
    rw [BitVec.msb_eq_false_iff_two_mul_lt, BitVec.toNat_ofNat]
    omega
  rw [asUsize, BitVec.signExtend_eq_setWidth_of_msb_false hmsb, BitVec.toNat_setWidth,
    BitVec.toNat_ofNat]
  omega

/-- A string is read after the number of its bytes, if they are there. -/
theorem readString_of_readVarint (h : readVarint buf = .ok (v, rest)) :
    readString buf =
      if rest.length < asUsize v then
        .error (.refused ("string claims " ++ toString (asUsize v) ++ " bytes, " ++
          toString rest.length ++ " remain"))
      else
        match fromUtf8 (rest.take (asUsize v)) with
        | some s => .ok (s, rest.drop (asUsize v))
        | none => .error (.refused "status response is not UTF-8") := by
  rw [readString, h]
  change (if _ then _ else splitAt rest (asUsize v) >>= _) = _
  split_ifs with hlt
  · rfl
  · rw [splitAt, if_pos (not_lt.1 hlt)]
    rfl

theorem readString_writeString (h : s.utf8ByteSize ≤ 2 ^ 31 - 1) :
    readString (writeString s ++ rest) = .ok (s, rest) := by
  have hsize := asUsize_ofNat h
  have hle : s.utf8ByteSize ≤ (s.toUTF8.data.toList ++ rest).length := by
    rw [List.length_append, length_toUTF8]
    exact Nat.le_add_right _ _
  rw [writeString, List.append_assoc, readString_of_readVarint readVarint_writeVarint, hsize,
    if_neg (not_lt.2 hle), List.take_left' length_toUTF8, List.drop_left' length_toUTF8,
    fromUtf8_toUTF8]

/-! ## What is taken -/

/-- Nothing is read of a number that is not there. -/
theorem readVarint_noPanic : readVarint buf ≠ .error .panic := by
  rw [readVarint]
  rcases Varint.read 0 5 0#32 buf with e | r
  · rcases e with _ | _
    · exact nofun
    · exact nofun
  · exact nofun

theorem readString_noPanic : readString buf ≠ .error .panic := by
  rcases h : readVarint buf with e | ⟨v, rest⟩
  · rw [readString, h]
    intro he
    exact readVarint_noPanic (h.trans (congrArg _ (Except.error.inj he)))
  · rw [readString_of_readVarint h]
    split_ifs
    · exact nofun
    · rcases fromUtf8 (rest.take (asUsize v)) with _ | s
      · exact nofun
      · exact nofun

theorem readLength_length {stream : ℕ → Option UInt8} {n : ℕ} {seen : Bytes} :
    (readLength stream n seen).1.length ≤ seen.length + n := by
  induction n generalizing seen with
  | zero => exact le_rfl
  | succ n ih =>
    rw [readLength]
    rcases stream seen.length with _ | b
    · exact Nat.le_add_right _ _
    · dsimp only
      split_ifs
      · simp
      · have hle := @ih (seen ++ [b])
        rw [List.length_append, List.length_singleton] at hle
        omega

theorem readLength_noPanic {stream : ℕ → Option UInt8} {n : ℕ} {seen : Bytes} :
    (readLength stream n seen).2 ≠ .error .panic := by
  induction n generalizing seen with
  | zero => exact nofun
  | succ n ih =>
    rw [readLength]
    rcases stream seen.length with _ | b
    · exact nofun
    · dsimp only
      split_ifs
      · exact nofun
      · exact ih

/-- However much a server sends, and whatever it says, five bytes are taken for the length, and
    there is a most that is made room for. -/
theorem readPacket_bounded (stream : ℕ → Option UInt8) :
    (readPacket stream).lengthBytes.length ≤ 5 ∧ (readPacket stream).allocated ≤ maxResponse ∧
      (readPacket stream).body ≠ .error .panic := by
  have hlen : (readLength stream 5 []).1.length ≤ 5 := readLength_length
  have hstop : (readLength stream 5 []).2 ≠ .error .panic := readLength_noPanic
  rw [readPacket]
  rcases hr : readLength stream 5 [] with ⟨bytes, e | ⟨⟩⟩
  all_goals rw [hr] at hlen hstop
  · exact ⟨hlen, Nat.zero_le _, fun he => hstop (congrArg _ (Except.error.inj he))⟩
  dsimp only
  rcases h : readVarint bytes with e | ⟨v, rest⟩
  · exact ⟨hlen, Nat.zero_le _, fun he =>
      readVarint_noPanic (h.trans (congrArg _ (Except.error.inj he)))⟩
  dsimp only
  split_ifs with hmax
  · exact ⟨hlen, Nat.zero_le _, nofun⟩
  · refine ⟨hlen, not_lt.1 hmax, ?_⟩
    rw [readExact]
    rcases (List.range (asUsize v)).mapM fun i => stream (bytes.length + i) with _ | body
    · exact nofun
    · exact nofun

end Facts

/-- What goes over the wire is read back, in at most five bytes for each number, and whatever a
    server sends, nothing is read that is not there and no more room is made than there may be. -/
theorem wire_round_trips :
    (∀ v rest, readVarint (writeVarint v ++ rest) = .ok (v, rest)) ∧
    (∀ v, 1 ≤ (writeVarint v).length ∧ (writeVarint v).length ≤ 5) ∧
    (∀ s rest, s.utf8ByteSize ≤ 2 ^ 31 - 1 →
      readString (writeString s ++ rest) = .ok (s, rest)) ∧
    (∀ buf, readVarint buf ≠ .error .panic ∧ readString buf ≠ .error .panic) ∧
    ∀ stream, (readPacket stream).lengthBytes.length ≤ 5 ∧
      (readPacket stream).allocated ≤ maxResponse ∧
      (readPacket stream).body ≠ .error .panic := by
  refine ⟨?_, ?_, ?_, ?_, readPacket_bounded⟩
  · intro v rest
    exact readVarint_writeVarint
  · intro v
    exact length_writeVarint
  · intro s rest h
    exact readString_writeString h
  · intro buf
    exact ⟨readVarint_noPanic, readString_noPanic⟩

end Mcping

end Smrt
