import BengaliTts.Lib.BinaryFloat
import BengaliTts.Lib.Riff
import BengaliTts.World

/-!
# The recordings as files

`engines/audio.py`: the samples of an inference model become the frames of a WAV file
with one channel of 16 bits.  Samples that are no 16-bit integers are taken to single
precision, clipped to [-1, 1], multiplied by 32767 and cut off toward zero.  The file
is written by the `wave` module of the standard library: a header of 44 bytes and the
frames.

Main results:
* `pcm16_wav_file`: when a file is written, and that a reader of chunked files finds
  in it one channel, 16 bits, the rate, and the very samples;
* `pcm16_levels`: what a sample becomes.
-/

namespace BengaliTts

open Lib

section WaveModule

/-- `wave.Error` and `struct.error`. -/
inductive WaveError where
  | badFrameRate
  | doesNotFit
  deriving DecidableEq

/-- `struct.pack` of a field without a sign. -/
def structPack (width n : Nat) : Except WaveError Bytes :=
  if n < 256 ^ width then .ok (leBytes width n) else .error .doesNotFit

def asciiBytes (text : String) : Bytes :=
  text.toList.map fun c => UInt8.ofNat c.toNat

structure WaveParams where
  nchannels : Nat
  sampwidth : Nat
  framerate : Nat

/-- `Wave_write._write_header`. -/
def writeHeader (p : WaveParams) (datalength : Nat) : Except WaveError Bytes := do
  let formLength ← structPack 4 (36 + datalength)
  let nchannels ← structPack 2 p.nchannels
  let framerate ← structPack 4 p.framerate
  let byteRate ← structPack 4 (p.nchannels * p.framerate * p.sampwidth)
  let blockAlign ← structPack 2 (p.nchannels * p.sampwidth)
  let bits ← structPack 2 (p.sampwidth * 8)
  let length ← structPack 4 datalength
  return asciiBytes "RIFF" ++ formLength ++ asciiBytes "WAVE" ++ asciiBytes "fmt " ++
    leBytes 4 16 ++ leBytes 2 1 ++ nchannels ++ framerate ++ byteRate ++ blockAlign ++ bits ++
    asciiBytes "data" ++ length

/-- `setframerate`, one `writeframes` and `close`.  The header counts whole frames; when
there were more bytes, its lengths are patched. -/
def writeWave (p : WaveParams) (data : Bytes) : Except WaveError Bytes := do
  if p.framerate = 0 then
    .error .badFrameRate
  else
    let nframes := data.length / (p.nchannels * p.sampwidth)
    let header ← writeHeader p (nframes * p.nchannels * p.sampwidth)
    if nframes * p.nchannels * p.sampwidth = data.length then
      return header ++ data
    else
      let patched ← writeHeader p data.length
      return patched ++ data

end WaveModule

section Audio

/-- A sample array, by its `dtype`: 16-bit integers, or numbers of any other type. -/
inductive Samples where
  | int16 (xs : List Int16)
  | other (xs : List FloatValue)

/-- What NumPy leaves open: the integer that `nan` becomes. -/
structure NumPy where
  nanAsInt16 : Int16

/-- `np.float32`. -/
def float32 : FloatFormat where
  precision := 24
  precision_pos := Nat.succ_pos 23
  emin := -149
  emax := 128

/-- `astype(np.int16)` of a number that is in range, or of none. -/
def NumPy.asInt16 (np : NumPy) : FloatValue → Int16
  | .finite x => Int16.ofInt (truncate x)
  | _ => np.nanAsInt16

/-- One float sample of `pcm16_wav_bytes`. -/
def pcm16Level (np : NumPy) (v : FloatValue) : Int16 :=
  np.asInt16 (float32.times 32767 ((float32.convert v).clip (-1) 1))

/-- The array `pcm` of `pcm16_wav_bytes`. -/
def pcm16 (np : NumPy) : Samples → List Int16
  | .int16 xs => xs
  | .other xs => xs.map (pcm16Level np)

/-- One sample of `pcm.tobytes()`. -/
def int16Bytes (x : Int16) : Bytes :=
  leBytes 2 x.toUInt16.toNat

def pcm16WavBytes (np : NumPy) (samples : Samples) (sampleRate : Nat) :
    Except WaveError Bytes :=
  writeWave ⟨1, 2, sampleRate⟩ ((pcm16 np samples).flatMap int16Bytes)

end Audio

section Reading

/-- What a WAV file says. -/
structure Pcm where
  nchannels : Nat
  framerate : Nat
  bits : Nat
  frames : Bytes
  deriving DecidableEq

/-- The samples of frames of 16 bits. -/
def int16Samples : Bytes → List Int16
  | low :: high :: frames => (UInt16.ofNat (leNumber [low, high])).toInt16 :: int16Samples frames
  | _ => []

/-- The body of the first chunk of that name. -/
def chunkBody (name : String) (chunks : List Chunk) : Option Bytes :=
  (chunks.find? fun c => decide (c.id = asciiBytes name)).map Chunk.body

/-- The format of uncompressed samples. -/
def readFormat (frames : Bytes) (fmt : Bytes) : Option Pcm := do
  let (tag, fmt) ← readNumber 2 fmt
  let (nchannels, fmt) ← readNumber 2 fmt
  let (framerate, fmt) ← readNumber 4 fmt
  let (_, fmt) ← readNumber 4 fmt
  let (_, fmt) ← readNumber 2 fmt
  let (bits, _) ← readNumber 2 fmt
  if tag = 1 then some ⟨nchannels, framerate, bits, frames⟩ else none

/-- A reader of WAV files: the chunks of the RIFF chunk, in any order and among
others. -/
def readWave (file : Bytes) : Option Pcm := do
  let (riff, _) ← readChunk file
  if riff.id = asciiBytes "RIFF" ∧ riff.body.take 4 = asciiBytes "WAVE" then
    let chunks ← readChunks riff.body.length (riff.body.drop 4)
    let frames ← chunkBody "data" chunks
    let fmt ← chunkBody "fmt " chunks
    readFormat frames fmt
  else
    none

/-- The three checks of `e2e-smoke.sh`. -/
def playable (file : Bytes) : Prop :=
  file.take 4 = asciiBytes "RIFF" ∧ (file.drop 8).take 4 = asciiBytes "WAVE" ∧ 44 < file.length

end Reading

section Frames

theorem int16Samples_bytes
    (xs : List Int16) :
    int16Samples (xs.flatMap int16Bytes) = xs := by
  induction xs with
  | nil => rfl
  | cons x xs ih =>
      have hx : x.toUInt16.toNat < 256 ^ 2 := x.toUInt16.toNat_lt
      have hnumber := leNumber_leBytes hx
      rw [List.flatMap_cons, int16Bytes]
      simp only [leBytes] at hnumber ⊢
      rw [List.cons_append, List.cons_append, List.nil_append, int16Samples, hnumber, ih,
        UInt16.ofNat_toNat, Int16.toInt16_toUInt16]

theorem length_frames
    (xs : List Int16) :
    (xs.flatMap int16Bytes).length = 2 * xs.length := by
  induction xs with
  | nil => rfl
  | cons x xs ih =>
      rw [List.flatMap_cons, List.length_append, ih, int16Bytes, length_leBytes, List.length_cons]
      omega

end Frames

section Writing

/-- All the fields of the header have room. -/
def WaveParams.Fits (p : WaveParams) (datalength : Nat) : Prop :=
  36 + datalength < 256 ^ 4 ∧ p.nchannels < 256 ^ 2 ∧ p.framerate < 256 ^ 4 ∧
    p.nchannels * p.framerate * p.sampwidth < 256 ^ 4 ∧ p.nchannels * p.sampwidth < 256 ^ 2 ∧
      p.sampwidth * 8 < 256 ^ 2 ∧ datalength < 256 ^ 4

/-- The body of the `fmt ` chunk. -/
def WaveParams.format (p : WaveParams) : Bytes :=
  leBytes 2 1 ++ leBytes 2 p.nchannels ++ leBytes 4 p.framerate ++
    leBytes 4 (p.nchannels * p.framerate * p.sampwidth) ++ leBytes 2 (p.nchannels * p.sampwidth) ++
      leBytes 2 (p.sampwidth * 8)

def WaveParams.header (p : WaveParams) (datalength : Nat) : Bytes :=
  asciiBytes "RIFF" ++ leBytes 4 (36 + datalength) ++ asciiBytes "WAVE" ++ asciiBytes "fmt " ++
    leBytes 4 16 ++ p.format ++ asciiBytes "data" ++ leBytes 4 datalength

variable {p : WaveParams}

theorem structPack_bind
    {α : Type} (width n : Nat) (next : Bytes → Except WaveError α) :
    (structPack width n >>= next) =
      if n < 256 ^ width then next (leBytes width n) else .error .doesNotFit := by
  unfold structPack
  split <;> rfl

theorem writeHeader_of_fits
    {datalength : Nat}
    (h : p.Fits datalength) :
    writeHeader p datalength = .ok (p.header datalength) := by
  obtain ⟨hform, hchannels, hrate, hbytes, halign, hbits, hlength⟩ := h
  simp only [writeHeader, structPack_bind]
  rw [if_pos hform, if_pos hchannels, if_pos hrate, if_pos hbytes, if_pos halign, if_pos hbits,
    if_pos hlength]
  simp only [WaveParams.header, WaveParams.format, List.append_assoc]
  rfl

theorem writeHeader_of_not_fits
    {datalength : Nat}
    (h : ¬ p.Fits datalength) :
    writeHeader p datalength = .error .doesNotFit := by
  simp only [writeHeader, structPack_bind]
  split_ifs with hform hchannels hrate hbytes halign hbits hlength
  · exact absurd ⟨hform, hchannels, hrate, hbytes, halign, hbits, hlength⟩ h
  all_goals rfl

/-- Whole frames need no patch. -/
theorem writeWave_eq
    {data : Bytes}
    (hrate : 0 < p.framerate)
    (hframes : p.nchannels * p.sampwidth ∣ data.length) :
    writeWave p data = (writeHeader p data.length).map (· ++ data) := by
  have hwhole : data.length / (p.nchannels * p.sampwidth) * p.nchannels * p.sampwidth =
      data.length := by
    rw [Nat.mul_assoc]
    exact Nat.div_mul_cancel hframes
  simp only [writeWave]
  rw [if_neg (by omega), hwhole]
  cases writeHeader p data.length with
  | error e => rfl
  | ok header => exact if_pos rfl

end Writing

section Chunks

theorem length_format
    (p : WaveParams) :
    p.format.length = 16 := by
  simp only [WaveParams.format, List.length_append, length_leBytes]

def WaveParams.formatChunk (p : WaveParams) : Chunk where
  id := asciiBytes "fmt "
  body := p.format
  id_length := rfl
  body_length := by
    rw [length_format]
    norm_num

/-- The chunk of the frames. -/
def dataChunk (data : Bytes) (h : data.length < 256 ^ 4) : Chunk where
  id := asciiBytes "data"
  body := data
  id_length := rfl
  body_length := h

theorem length_chunk
    (c : Chunk) :
    c.bytes.length = 8 + c.body.length + c.body.length % 2 := by
  have hid := c.id_length
  simp only [Chunk.bytes, List.length_append, length_leBytes, List.length_replicate]
  omega

/-- The two chunks of a recording. -/
def WaveParams.chunks (p : WaveParams) (data : Bytes) (h : data.length < 256 ^ 4) :
    List Chunk :=
  [p.formatChunk, dataChunk data h]

/-- They come after the format tag; frames of an even length need no zero byte. -/
theorem length_waveBody
    (p : WaveParams) {data : Bytes}
    (h : data.length < 256 ^ 4)
    (heven : data.length % 2 = 0) :
    (asciiBytes "WAVE" ++ (p.chunks data h).flatMap Chunk.bytes).length = 36 + data.length := by
  have hformat : p.formatChunk.bytes.length = 24 := by
    rw [length_chunk]
    simp only [WaveParams.formatChunk, length_format]
  have hdata : (dataChunk data h).bytes.length = 8 + data.length := by
    rw [length_chunk]
    simp only [dataChunk]
    omega
  have hwave : (asciiBytes "WAVE").length = 4 := rfl
  rw [WaveParams.chunks, List.flatMap_cons, List.flatMap_cons, List.flatMap_nil, List.append_nil,
    List.length_append, List.length_append]
  omega

def WaveParams.riffChunk (p : WaveParams) (data : Bytes) (h : 36 + data.length < 256 ^ 4)
    (heven : data.length % 2 = 0) : Chunk where
  id := asciiBytes "RIFF"
  body := asciiBytes "WAVE" ++ (p.chunks data (by omega)).flatMap Chunk.bytes
  id_length := rfl
  body_length := by
    rw [length_waveBody p (by omega) heven]
    exact h

/-- The whole file is one chunk. -/
theorem bytes_riffChunk
    {p : WaveParams} {data : Bytes}
    (h : 36 + data.length < 256 ^ 4)
    (heven : data.length % 2 = 0) :
    (p.riffChunk data h heven).bytes = p.header data.length ++ data := by
  have hbody := length_waveBody p (by omega : data.length < 256 ^ 4) heven
  have hpad : (36 + data.length) % 2 = 0 := by omega
  simp only [Chunk.bytes, WaveParams.riffChunk, hbody, hpad, List.replicate_zero,
    List.append_nil]
  simp only [WaveParams.chunks, List.flatMap_cons, List.flatMap_nil, List.append_nil, Chunk.bytes,
    WaveParams.formatChunk, dataChunk, length_format, heven, Nat.reduceMod, List.replicate_zero,
    WaveParams.header, List.append_assoc]

theorem readFormat_format
    {p : WaveParams} {datalength : Nat} (frames : Bytes)
    (h : p.Fits datalength) :
    readFormat frames p.format = some ⟨p.nchannels, p.framerate, p.sampwidth * 8, frames⟩ := by
  obtain ⟨_, hchannels, hrate, hbytes, halign, hbits, _⟩ := h
  have hlast := readNumber_append [] hbits
  rw [List.append_nil] at hlast
  simp only [readFormat, WaveParams.format, List.append_assoc, bind, Option.bind_some,
    readNumber_append _ hchannels, readNumber_append _ hrate, readNumber_append _ hbytes,
    readNumber_append _ halign, hlast, readNumber_append _ (by norm_num : 1 < 256 ^ 2), if_true]

/-- **Round trip.**  A reader finds the format and the frames. -/
theorem readWave_file
    {p : WaveParams} {data : Bytes}
    (h : p.Fits data.length)
    (heven : data.length % 2 = 0) :
    readWave (p.header data.length ++ data) =
      some ⟨p.nchannels, p.framerate, p.sampwidth * 8, data⟩ := by
  have hlength : data.length < 256 ^ 4 := by
    have := h.1
    omega
  have hriff := readChunk_bytes (p.riffChunk data h.1 heven) []
  rw [List.append_nil, bytes_riffChunk h.1 heven] at hriff
  have hwave : (asciiBytes "WAVE").length = 4 := rfl
  have hchunks : readChunks (p.riffChunk data h.1 heven).body.length
      ((p.riffChunk data h.1 heven).body.drop 4) = some (p.chunks data hlength) := by
    have hbody : (p.riffChunk data h.1 heven).body.length = 36 + data.length :=
      length_waveBody p hlength heven
    have hdrop : (p.riffChunk data h.1 heven).body.drop 4 =
        (p.chunks data hlength).flatMap Chunk.bytes :=
      List.drop_left' hwave
    have htwo : (p.chunks data hlength).length = 2 := rfl
    rw [hbody, hdrop]
    exact readChunks_bytes _ (by omega)
  simp only [readWave, hriff, bind, Option.bind_some]
  rw [if_pos ⟨rfl, List.take_left' hwave⟩, hchunks]
  exact readFormat_format data h

end Chunks

section Files

variable {np : NumPy} {samples : Samples} {rate : Nat}

/-- The header of a recording with one channel of 16 bits. -/
def monoParams (rate : Nat) : WaveParams :=
  ⟨1, 2, rate⟩

/-- A file of `n` samples has room for its numbers. -/
def FileFits (rate n : Nat) : Prop :=
  0 < rate ∧ 2 * rate < 2 ^ 32 ∧ 36 + 2 * n < 2 ^ 32

theorem fits_iff
    {n : Nat}
    (hrate : 0 < rate) :
    (monoParams rate).Fits (2 * n) ↔ FileFits rate n := by
  simp only [WaveParams.Fits, monoParams, FileFits]
  norm_num
  omega

theorem pcm16_int16
    (np : NumPy) (xs : List Int16) :
    pcm16 np (.int16 xs) = xs :=
  rfl

/-- **Writing.**  A file is written exactly when its numbers fit. -/
theorem pcm16WavBytes_eq_ok
    {file : Bytes} :
    pcm16WavBytes np samples rate = .ok file ↔
      FileFits rate (pcm16 np samples).length ∧
        file = (monoParams rate).header (2 * (pcm16 np samples).length) ++
          (pcm16 np samples).flatMap int16Bytes := by
  have hlength := length_frames (pcm16 np samples)
  rcases Nat.eq_zero_or_pos rate with rfl | hrate
  · have herror : pcm16WavBytes np samples 0 = .error .badFrameRate := rfl
    rw [herror]
    constructor
    · intro h
      cases h
    · rintro ⟨⟨hpos, _⟩, _⟩
      exact absurd hpos (Nat.lt_irrefl 0)
  · have hwrite : pcm16WavBytes np samples rate =
        (writeHeader (monoParams rate) (2 * (pcm16 np samples).length)).map
          (· ++ (pcm16 np samples).flatMap int16Bytes) := by
      rw [← hlength]
      refine writeWave_eq hrate ?_
      rw [hlength]
      exact Nat.dvd_mul_right 2 _
    rw [hwrite, ← fits_iff hrate]
    by_cases hfits : (monoParams rate).Fits (2 * (pcm16 np samples).length)
    · rw [writeHeader_of_fits hfits]
      constructor
      · intro h
        cases h
        exact ⟨hfits, rfl⟩
      · rintro ⟨_, rfl⟩
        rfl
    · rw [writeHeader_of_not_fits hfits]
      constructor
      · intro h
        cases h
      · rintro ⟨h, _⟩
        exact absurd h hfits

/-- What a file says that holds these samples. -/
def Says (file : Bytes) (rate : Nat) (xs : List Int16) : Prop :=
  ∃ frames, readWave file = some ⟨1, rate, 16, frames⟩ ∧ int16Samples frames = xs

theorem length_header
    (p : WaveParams) (datalength : Nat) :
    (p.header datalength).length = 44 := by
  have hriff : (asciiBytes "RIFF").length = 4 := rfl
  have hwave : (asciiBytes "WAVE").length = 4 := rfl
  have hfmt : (asciiBytes "fmt ").length = 4 := rfl
  have hdata : (asciiBytes "data").length = 4 := rfl
  simp only [WaveParams.header, List.length_append, length_leBytes, length_format, hriff, hwave,
    hfmt, hdata]

theorem playable_header
    (p : WaveParams) (datalength : Nat) (data : Bytes) :
    playable (p.header datalength ++ data) ↔ data ≠ [] := by
  have hriff : (asciiBytes "RIFF").length = 4 := rfl
  have hwave : (asciiBytes "WAVE").length = 4 := rfl
  have hlength : (asciiBytes "RIFF" ++ leBytes 4 (36 + datalength)).length = 8 := by
    rw [List.length_append, length_leBytes, hriff]
  have hfile : p.header datalength ++ data =
      asciiBytes "RIFF" ++ (leBytes 4 (36 + datalength) ++ (asciiBytes "WAVE" ++
        (asciiBytes "fmt " ++ (leBytes 4 16 ++ (p.format ++ (asciiBytes "data" ++
          (leBytes 4 datalength ++ data))))))) := by
    simp only [WaveParams.header, List.append_assoc]
  have htake : (p.header datalength ++ data).take 4 = asciiBytes "RIFF" := by
    rw [hfile, List.take_left' hriff]
  have hdrop : ((p.header datalength ++ data).drop 8).take 4 = asciiBytes "WAVE" := by
    rw [hfile, ← List.append_assoc, List.drop_left' hlength, List.take_left' hwave]
  have hsize : 44 < (p.header datalength ++ data).length ↔ data ≠ [] := by
    rw [List.length_append, length_header, ← List.length_pos_iff]
    omega
  exact ⟨fun h => hsize.mp h.2.2, fun h => ⟨htake, hdrop, hsize.mpr h⟩⟩

theorem says_unique
    {file : Bytes} {rate' : Nat} {xs xs' : List Int16}
    (h : Says file rate xs)
    (h' : Says file rate' xs') :
    rate = rate' ∧ xs = xs' := by
  obtain ⟨frames, hread, rfl⟩ := h
  obtain ⟨frames', hread', rfl⟩ := h'
  rw [hread] at hread'
  cases hread'
  exact ⟨rfl, rfl⟩

theorem says_of_written
    {file : Bytes}
    (h : pcm16WavBytes np samples rate = .ok file) :
    Says file rate (pcm16 np samples) := by
  obtain ⟨hfits, rfl⟩ := pcm16WavBytes_eq_ok.mp h
  have hlength := length_frames (pcm16 np samples)
  have hheader := (fits_iff hfits.1).mpr hfits
  refine ⟨(pcm16 np samples).flatMap int16Bytes, ?_, int16Samples_bytes _⟩
  rw [← hlength] at hheader ⊢
  exact readWave_file hheader (by omega)

theorem length_of_written
    {file : Bytes}
    (h : pcm16WavBytes np samples rate = .ok file) :
    file.length = 44 + 2 * (pcm16 np samples).length := by
  rw [(pcm16WavBytes_eq_ok.mp h).2, List.length_append, length_header, length_frames]

theorem playable_of_written
    {file : Bytes}
    (h : pcm16WavBytes np samples rate = .ok file) :
    playable file ↔ pcm16 np samples ≠ [] := by
  have hlength := length_frames (pcm16 np samples)
  rw [(pcm16WavBytes_eq_ok.mp h).2, playable_header, ← List.length_pos_iff, ← List.length_pos_iff,
    hlength]
  omega

/--
**The file of a recording.**  `pcm16_wav_bytes` writes a file exactly when the sampling
rate is positive and the byte rate and the length of the file fit in 32 bits, whatever the
samples are.  A reader of chunked files finds in it one channel, 16 bits, that rate, and
exactly the samples; it has 44 bytes and two for each sample, and the checks of the smoke
test accept it unless there is no sample.  Equal files hold equal samples.
-/
theorem pcm16_wav_file
    (np : NumPy) (samples : Samples) (rate : Nat) :
    ((∃ file, pcm16WavBytes np samples rate = .ok file) ↔
      FileFits rate (pcm16 np samples).length) ∧
    (∀ file, pcm16WavBytes np samples rate = .ok file →
      Says file rate (pcm16 np samples) ∧ file.length = 44 + 2 * (pcm16 np samples).length ∧
        (playable file ↔ pcm16 np samples ≠ [])) ∧
    (∀ file samples' rate', pcm16WavBytes np samples rate = .ok file →
      pcm16WavBytes np samples' rate' = .ok file →
        rate = rate' ∧ pcm16 np samples = pcm16 np samples') := by
  refine ⟨?_, ?_, fun file samples' rate' h h' =>
    says_unique (says_of_written h) (says_of_written h')⟩
  · constructor
    · rintro ⟨file, h⟩
      exact (pcm16WavBytes_eq_ok.mp h).1
    · intro hfits
      exact ⟨_, pcm16WavBytes_eq_ok.mpr ⟨hfits, rfl⟩⟩
  · intro file h
    exact ⟨says_of_written h, length_of_written h, playable_of_written h⟩

end Files

section Levels

variable {np : NumPy} {v v' : FloatValue} {x y : ℚ}

/-- The clipped number that a sample becomes first. -/
def clipped (v : FloatValue) : FloatValue :=
  (float32.convert v).clip (-1) 1

theorem float32_representable
    {n : ℤ}
    (h : |n| < 2 ^ 24) :
    float32.Representable n :=
  FloatFormat.representable_intCast h (by norm_num [float32])

/-- Between two integers, the sample is cut off between them. -/
theorem truncate_round_between
    {m n : ℤ}
    (hm : |m| < 2 ^ 24)
    (hn : |n| < 2 ^ 24)
    (hmx : (m : ℚ) ≤ x)
    (hxn : x ≤ n) :
    m ≤ truncate (float32.round x) ∧ truncate (float32.round x) ≤ n :=
  truncate_between (FloatFormat.le_round (float32_representable hm) hmx)
    (FloatFormat.round_le (float32_representable hn) hxn)

theorem truncate_round_range
    (hlower : -1 ≤ x)
    (hupper : x ≤ 1) :
    -32767 ≤ truncate (float32.round (x * 32767)) ∧
      truncate (float32.round (x * 32767)) ≤ 32767 :=
  truncate_round_between (by norm_num) (by norm_num) (by push_cast; linarith)
    (by push_cast; linarith)

/-- A clipped number never leaves the range of the integers. -/
theorem toInt_level
    (hclip : clipped v = .finite x)
    (hlower : -1 ≤ x)
    (hupper : x ≤ 1) :
    (pcm16Level np v).toInt = truncate (float32.round (x * 32767)) := by
  have hrange := truncate_round_range hlower hupper
  have hlarge : float32.Representable ((32767 : ℤ) : ℚ) := float32_representable (by norm_num)
  have hfinite : float32.ofRat (x * 32767) = .finite (float32.round (x * 32767)) := by
    refine (FloatFormat.ofRat_of_abs_le hlarge (by norm_num [float32]) ?_).1
    rw [abs_le]
    constructor <;> push_cast <;> linarith
  have hlevel : pcm16Level np v = Int16.ofInt (truncate (float32.round (x * 32767))) := by
    unfold clipped at hclip
    rw [pcm16Level, hclip, FloatFormat.times, hfinite, NumPy.asInt16]
  rw [hlevel, Int16.toInt_ofInt_of_le (by omega) (by omega)]

theorem clipped_eq
    (hv : v ≠ .nan) :
    ∃ x, clipped v = .finite x ∧ -1 ≤ x ∧ x ≤ 1 := by
  rcases FloatFormat.clip_eq (by norm_num : (-1 : ℚ) ≤ 1) (float32.convert v) with hnan | hclip
  · cases v with
    | nan => exact absurd rfl hv
    | inf negative => cases hnan
    | finite x =>
        rcases FloatFormat.ofRat_cases (F := float32) x with ⟨_, hx⟩ | ⟨_, hx⟩ | ⟨_, hx⟩ <;>
          (rw [FloatFormat.convert, hx] at hnan; cases hnan)
  · exact hclip

theorem clipped_mono
    (h : v.Le v') :
    ∃ x y, clipped v = .finite x ∧ clipped v' = .finite y ∧ x ≤ y :=
  FloatFormat.clip_mono (by norm_num) (FloatFormat.convert_mono h)

theorem ne_nan_of_le
    (h : v.Le v') :
    v ≠ .nan ∧ v' ≠ .nan := by
  constructor
  · rintro rfl
    exact h.elim
  · rintro rfl
    cases v with
    | nan => exact h.elim
    | inf negative => cases negative <;> exact h.elim
    | finite x => exact h.elim

theorem level_mono
    (np : NumPy)
    (h : v.Le v') :
    (pcm16Level np v).toInt ≤ (pcm16Level np v').toInt := by
  obtain ⟨x, y, hx, hy, hxy⟩ := clipped_mono h
  obtain ⟨hv, hv'⟩ := ne_nan_of_le h
  obtain ⟨_, hx', hxlower, hxupper⟩ := clipped_eq hv
  obtain ⟨_, hy', hylower, hyupper⟩ := clipped_eq hv'
  rw [hx] at hx'
  rw [hy] at hy'
  cases hx'
  cases hy'
  rw [toInt_level hx hxlower hxupper, toInt_level hy hylower hyupper]
  exact truncate_mono (FloatFormat.round_mono (mul_le_mul_of_nonneg_right hxy (by norm_num)))

/-- An integer of the range is clipped to itself. -/
theorem clipped_intCast
    {n : ℤ}
    (hlower : -1 ≤ n)
    (hupper : n ≤ 1) :
    clipped (.finite n) = .finite n := by
  have hrepresentable : float32.Representable n :=
    float32_representable (by rw [abs_lt]; omega)
  have hlowerQ : (-1 : ℚ) ≤ n := by exact_mod_cast hlower
  have hupperQ : (n : ℚ) ≤ 1 := by exact_mod_cast hupper
  have hlimit : |(n : ℚ)| < 2 ^ float32.emax := by
    have hone : |(n : ℚ)| ≤ 1 := abs_le.mpr ⟨hlowerQ, hupperQ⟩
    exact lt_of_le_of_lt hone (by norm_num [float32])
  rw [clipped, FloatFormat.convert, FloatFormat.ofRat_of_representable hrepresentable hlimit,
    FloatValue.clip, max_eq_left hlowerQ, min_eq_left hupperQ]

theorem level_of_clipped_int
    {n : ℤ}
    (hclip : clipped v = .finite n)
    (hlower : -1 ≤ n)
    (hupper : n ≤ 1) :
    (pcm16Level np v).toInt = n * 32767 := by
  have hlowerQ : (-1 : ℚ) ≤ n := by exact_mod_cast hlower
  have hupperQ : (n : ℚ) ≤ 1 := by exact_mod_cast hupper
  have hproduct : ((n : ℚ) * 32767) = ((n * 32767 : ℤ) : ℚ) := by push_cast; rfl
  have hrepresentable : float32.Representable ((n * 32767 : ℤ) : ℚ) :=
    float32_representable (by rw [abs_lt]; omega)
  rw [toInt_level hclip hlowerQ hupperQ, hproduct,
    FloatFormat.round_of_representable hrepresentable, truncate_intCast]

theorem level_of_loud
    (h : (FloatValue.finite 1).Le v) :
    (pcm16Level np v).toInt = 32767 := by
  obtain ⟨x, y, hx, hy, hxy⟩ := clipped_mono h
  obtain ⟨_, hy', _, hupper⟩ := clipped_eq (ne_nan_of_le h).2
  have hone := clipped_intCast (n := 1) (by omega) (by omega)
  rw [Int.cast_one, hx] at hone
  rw [hy] at hy'
  cases hone
  cases hy'
  have heq : y = ((1 : ℤ) : ℚ) := by
    rw [Int.cast_one]
    linarith
  rw [level_of_clipped_int (n := 1) (by rw [hy, heq]) (by omega) (by omega), one_mul]

theorem level_of_low
    (h : v.Le (.finite (-1))) :
    (pcm16Level np v).toInt = -32767 := by
  obtain ⟨x, y, hx, hy, hxy⟩ := clipped_mono h
  obtain ⟨_, hx', hlower, _⟩ := clipped_eq (ne_nan_of_le h).1
  have hone := clipped_intCast (n := -1) (by omega) (by omega)
  rw [Int.cast_neg, Int.cast_one, hy] at hone
  rw [hx] at hx'
  cases hone
  cases hx'
  have heq : x = ((-1 : ℤ) : ℚ) := by
    rw [Int.cast_neg, Int.cast_one]
    linarith
  rw [level_of_clipped_int (n := -1) (by rw [hx, heq]) (by omega) (by omega)]
  rfl

/--
**Levels.**  However a float sample was rounded to single precision before, clipped,
multiplied and rounded again: unless it is no number, its level is between -32767 and
32767, so that nothing wraps and the least 16-bit integer is never used; it is within one
of 32767 times the clipped sample; louder samples have no lower levels; samples from 1 up,
infinity among them, become 32767, those from -1 down -32767, and silence becomes 0.
-/
theorem pcm16_levels
    (np : NumPy)
    (hv : v ≠ .nan) :
    |(pcm16Level np v).toInt| ≤ 32767 ∧
    (∃ x, clipped v = .finite x ∧ |x| ≤ 1 ∧ |((pcm16Level np v).toInt : ℚ) - 32767 * x| ≤ 1) ∧
    (∀ v', v.Le v' → (pcm16Level np v).toInt ≤ (pcm16Level np v').toInt) ∧
    ((FloatValue.finite 1).Le v → (pcm16Level np v).toInt = 32767) ∧
    (v.Le (.finite (-1)) → (pcm16Level np v).toInt = -32767) ∧
    (pcm16Level np (.finite 0)).toInt = 0 := by
  obtain ⟨x, hx, hlower, hupper⟩ := clipped_eq hv
  have hlevel : (pcm16Level np v).toInt = truncate (float32.round (x * 32767)) :=
    toInt_level hx hlower hupper
  have hrange := truncate_round_range hlower hupper
  refine ⟨?_, ⟨x, hx, abs_le.mpr ⟨hlower, hupper⟩, ?_⟩, fun _ => level_mono np, level_of_loud,
    level_of_low, ?_⟩
  · rw [hlevel, abs_le]
    exact hrange
  · -- The product lies between two integers, and its rounding between the same two.
    have hfloor : ((⌊x * 32767⌋ : ℤ) : ℚ) ≤ x * 32767 := Int.floor_le _
    have hceil : x * 32767 < (⌊x * 32767⌋ : ℤ) + 1 := Int.lt_floor_add_one _
    have hbelow : -32767 ≤ ⌊x * 32767⌋ := Int.le_floor.mpr (by push_cast; linarith)
    have habove : ⌊x * 32767⌋ ≤ 32767 := by
      have : ((⌊x * 32767⌋ : ℤ) : ℚ) ≤ (32767 : ℤ) := by push_cast; linarith
      exact_mod_cast this
    have hbetween := truncate_round_between (n := ⌊x * 32767⌋ + 1) (by rw [abs_lt]; omega)
      (by rw [abs_lt]; omega) hfloor (by push_cast; linarith)
    have hm : ((⌊x * 32767⌋ : ℤ) : ℚ) ≤ truncate (float32.round (x * 32767)) := by
      exact_mod_cast hbetween.1
    have hn : (truncate (float32.round (x * 32767)) : ℚ) ≤ (⌊x * 32767⌋ : ℤ) + 1 := by
      exact_mod_cast hbetween.2
    rw [hlevel, abs_le]
    constructor <;> linarith
  · have hzero := clipped_intCast (n := 0) (by omega) (by omega)
    rw [Int.cast_zero] at hzero
    rw [level_of_clipped_int (n := 0) (by rw [hzero, Int.cast_zero]) (by omega) (by omega)]
    rfl

theorem pcm16_levels_infinite :
    ∃ x, clipped (.inf true) = .finite x ∧ |x| ≤ 1 ∧
      (pcm16Level ⟨0⟩ (.inf true)).toInt = -32767 := by
  have hlevels := pcm16_levels ⟨0⟩ (v := .inf true) (fun h => FloatValue.noConfusion h)
  obtain ⟨_, ⟨x, hx, hunit, _⟩, _, _, hlow, _⟩ := hlevels
  exact ⟨x, hx, hunit, hlow trivial⟩

end Levels

end BengaliTts
