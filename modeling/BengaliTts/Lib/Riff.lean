import Mathlib.Algebra.Order.Ring.Nat
import Mathlib.Tactic.Basic

/-!
# Chunked files

A chunked file is made of chunks: four bytes that name the chunk, four that give the
length of its body, least significant first, the body, and a zero byte where the
length is odd.  The chunks of a body are read one after another until it is used up.

Main facts:
* `leNumber_leBytes`: a number is read back from its bytes;
* `readChunk_bytes`: a chunk is read back, whatever follows it;
* `readChunks_bytes`: so are the chunks of a body.
-/

namespace BengaliTts
namespace Lib

/-- The `width` low bytes of `n`, the least significant first. -/
def leBytes : Nat → Nat → List UInt8
  | 0, _ => []
  | width + 1, n => UInt8.ofNat n :: leBytes width (n / 256)

def leNumber (bytes : List UInt8) : Nat :=
  bytes.foldr (fun b n => b.toNat + 256 * n) 0

/-- The next `width` bytes as a number, and what follows them. -/
def readNumber (width : Nat) (bytes : List UInt8) : Option (Nat × List UInt8) :=
  if bytes.length < width then none
  else some (leNumber (bytes.take width), bytes.drop width)

structure Chunk where
  id : List UInt8
  body : List UInt8
  id_length : id.length = 4
  body_length : body.length < 256 ^ 4
  deriving DecidableEq

/-- A chunk in the file. -/
def Chunk.bytes (c : Chunk) : List UInt8 :=
  c.id ++ leBytes 4 c.body.length ++ c.body ++ List.replicate (c.body.length % 2) 0

section Numbers

theorem length_leBytes
    (width n : Nat) :
    (leBytes width n).length = width := by
  induction width generalizing n with
  | zero => rfl
  | succ width ih => rw [leBytes, List.length_cons, ih]

theorem leNumber_cons
    (b : UInt8) (bytes : List UInt8) :
    leNumber (b :: bytes) = b.toNat + 256 * leNumber bytes :=
  rfl

theorem leNumber_lt
    (bytes : List UInt8) :
    leNumber bytes < 256 ^ bytes.length := by
  induction bytes with
  | nil => exact Nat.one_pos
  | cons b bytes ih =>
      have hb := b.toNat_lt
      rw [leNumber_cons, List.length_cons, Nat.pow_succ]
      omega

/-- **Numbers.**  A number that fits is read back from its bytes. -/
theorem leNumber_leBytes
    {width n : Nat}
    (h : n < 256 ^ width) :
    leNumber (leBytes width n) = n := by
  induction width generalizing n with
  | zero =>
      rw [Nat.pow_zero] at h
      have hzero : n = 0 := by omega
      rw [hzero]
      rfl
  | succ width ih =>
      have hrest : n / 256 < 256 ^ width := by
        rw [Nat.pow_succ] at h
        omega
      have hbyte : (UInt8.ofNat n).toNat = n % 256 := UInt8.toNat_ofNat'
      rw [leBytes, leNumber_cons, ih hrest, hbyte]
      omega

theorem readNumber_append
    {width n : Nat} (rest : List UInt8)
    (h : n < 256 ^ width) :
    readNumber width (leBytes width n ++ rest) = some (n, rest) := by
  have hlength := length_leBytes width n
  rw [readNumber, if_neg (by rw [List.length_append]; omega),
    List.take_left' hlength, List.drop_left' hlength, leNumber_leBytes h]

end Numbers

/-- The next chunk, and what follows it. -/
def readChunk (bytes : List UInt8) : Option (Chunk × List UInt8) :=
  if hheader : 8 ≤ bytes.length then
    if leNumber ((bytes.drop 4).take 4) ≤ (bytes.drop 8).length then
      some (
        { id := bytes.take 4
          body := (bytes.drop 8).take (leNumber ((bytes.drop 4).take 4))
          id_length := by rw [List.length_take]; omega
          body_length := by
            have hnumber := leNumber_lt ((bytes.drop 4).take 4)
            rw [List.length_take, List.length_drop] at hnumber
            have hfour : min 4 (bytes.length - 4) = 4 := by omega
            rw [hfour] at hnumber
            rw [List.length_take]
            omega },
        (bytes.drop 8).drop
          (leNumber ((bytes.drop 4).take 4) + leNumber ((bytes.drop 4).take 4) % 2))
    else none
  else none

/-- The chunks up to the end; `fuel` is the number of bytes. -/
def readChunks : Nat → List UInt8 → Option (List Chunk)
  | _, [] => some []
  | 0, _ :: _ => none
  | fuel + 1, b :: bytes =>
      (readChunk (b :: bytes)).bind fun next => (readChunks fuel next.2).map (next.1 :: ·)

section Chunks

theorem bytes_ne_nil
    (c : Chunk) (rest : List UInt8) :
    c.bytes ++ rest ≠ [] := by
  intro h
  have hid := c.id_length
  have hlength := congrArg List.length h
  simp only [Chunk.bytes, List.length_append, List.length_nil] at hlength
  omega

/-- **One chunk.** -/
theorem readChunk_bytes
    (c : Chunk) (rest : List UInt8) :
    readChunk (c.bytes ++ rest) = some (c, rest) := by
  obtain ⟨id, body, hid, hbody⟩ := c
  have hfile : (Chunk.mk id body hid hbody).bytes ++ rest =
      id ++ (leBytes 4 body.length ++ (body ++
        (List.replicate (body.length % 2) 0 ++ rest))) := by
    simp only [Chunk.bytes, List.append_assoc]
  have hfour := length_leBytes 4 body.length
  have hdrop : ((Chunk.mk id body hid hbody).bytes ++ rest).drop 4 =
      leBytes 4 body.length ++ (body ++ (List.replicate (body.length % 2) 0 ++ rest)) := by
    rw [hfile, List.drop_left' hid]
  have hsize : leNumber ((((Chunk.mk id body hid hbody).bytes ++ rest).drop 4).take 4) =
      body.length := by
    rw [hdrop, List.take_left' hfour, leNumber_leBytes hbody]
  have hbodies : ((Chunk.mk id body hid hbody).bytes ++ rest).drop 8 =
      body ++ (List.replicate (body.length % 2) 0 ++ rest) := by
    have height : (8 : Nat) = 4 + 4 := rfl
    rw [height, ← List.drop_drop, hdrop, List.drop_left' hfour]
  have hrest : (body ++ (List.replicate (body.length % 2) (0 : UInt8) ++ rest)).drop
      (body.length + body.length % 2) = rest := by
    rw [← List.drop_drop, List.drop_left, List.drop_left' List.length_replicate]
  have hname : ((Chunk.mk id body hid hbody).bytes ++ rest).take 4 = id := by
    rw [hfile, List.take_left' hid]
  unfold readChunk
  rw [dif_pos, if_pos]
  · simp only [hsize, hbodies, hrest, hname, List.take_left]
  · rw [hsize, hbodies, List.length_append]
    omega
  · rw [hfile]
    simp only [List.length_append]
    omega

/-- **Chunks.**  The chunks of a body are read back. -/
theorem readChunks_bytes
    (cs : List Chunk) {fuel : Nat}
    (h : cs.length ≤ fuel) :
    readChunks fuel (cs.flatMap Chunk.bytes) = some cs := by
  induction cs generalizing fuel with
  | nil => cases fuel <;> rfl
  | cons c cs ih =>
      cases fuel with
      | zero => exact absurd h (Nat.not_succ_le_zero _)
      | succ fuel =>
          rw [List.flatMap_cons]
          cases hbytes : c.bytes ++ cs.flatMap Chunk.bytes with
          | nil => exact absurd hbytes (bytes_ne_nil c _)
          | cons b bytes =>
              rw [readChunks, ← hbytes, readChunk_bytes, Option.bind_some,
                ih (Nat.le_of_succ_le_succ h), Option.map_some]

end Chunks

end Lib
end BengaliTts
