import BengaliTts.Provenance
import BengaliTts.WavFiles

/-!
# The engines, and what a client hears

`engines/`: the fake engine writes half a second of a tone, the same for every text;
the engine for IndicF5 writes what the model returns for the text.  The model may return
floats or 16-bit integers; integers are divided by 32768 first and then go the way of
the floats.  An engine may raise, and then no recording is returned.

Main results:
* `toInt_level_unitSample`: what becomes of a 16-bit sample of the model;
* `fake_recording`: the fake engine never raises, and what its file says;
* `played_recordings`: a recording that a client is played is a file that says, sample
  for sample, what the engine made of the text of that client's job.
-/

namespace BengaliTts

open Lib

section Engines

/-- Python's `float`. -/
def float64 : FloatFormat where
  precision := 53
  precision_pos := Nat.succ_pos 52
  emin := -1074
  emax := 1024

/-- The values of `math.sin` at the steps of the tone. -/
structure MathSin where
  value : Nat → ℚ
  bound : ∀ i, |value i| ≤ 1

/-- `int(32767 * _AMPLITUDE * math.sin(angular_step * i))` -/
def toneSample (sin : MathSin) (i : Nat) : ℤ :=
  truncate (float64.round (float64.round (32767 * float64.round (1 / 5)) * sin.value i))

/-- `struct.pack` of a field with a sign. -/
def structPackInt16 (n : ℤ) : Except WaveError Bytes :=
  if -2 ^ 15 ≤ n ∧ n < 2 ^ 15 then .ok (int16Bytes (Int16.ofInt n)) else .error .doesNotFit

/-- `int(_SAMPLE_RATE * _DURATION_SECONDS)` -/
def toneLength : Nat :=
  22050 / 2

/-- `FakeEngine.synthesize`, which does not read the text. -/
def fakeSynthesize (sin : MathSin) : Except WaveError Bytes := do
  let frames ← (List.range toneLength).mapM fun i => structPackInt16 (toneSample sin i)
  writeWave ⟨1, 2, 22050⟩ frames.flatten

/-- `samples.astype(np.float32) / 32768.0` of one sample. -/
def unitSample (s : Int16) : FloatValue :=
  float32.times (1 / 32768) (float32.convert (.finite s.toInt))

/-- What `IndicF5Engine.synthesize` makes of the array of the model. -/
def asFloats : Samples → Samples
  | .int16 xs => .other (xs.map unitSample)
  | .other xs => .other xs

def indicF5Synthesize (np : NumPy) (audio : Samples) : Except WaveError Bytes :=
  pcm16WavBytes np (asFloats audio) 24000

inductive Engine where
  | fake
  | indicF5
  deriving DecidableEq

/-- NumPy, the sine, and the arrays that the model may return for a text. -/
structure EngineDeps where
  np : NumPy
  sin : MathSin
  model : String → Samples → Prop

/-- `synthesize` may return this recording for the text. -/
def Engine.Returns (d : EngineDeps) : Engine → String → Bytes → Prop
  | .fake, _, wav => fakeSynthesize d.sin = .ok wav
  | .indicF5, text, wav => ∃ audio, d.model text audio ∧ indicF5Synthesize d.np audio = .ok wav

end Engines

section Statements

/-- A 16-bit sample one unit closer to silence. -/
def softened (s : Int16) : Int16 :=
  Int16.ofInt (s.toInt - s.toInt.sign)

/-- The samples of a file for an array of the model. -/
def heardSamples (np : NumPy) : Samples → List Int16
  | .int16 xs => xs.map softened
  | .other xs => xs.map (pcm16Level np)

/-- The samples of the tone. -/
def tone (sin : MathSin) : List Int16 :=
  (List.range toneLength).map fun i => Int16.ofInt (toneSample sin i)

/-- What a recording of the text says. -/
def Engine.Heard (d : EngineDeps) : Engine → String → Bytes → Prop
  | .fake, _, wav => Says wav 22050 (tone d.sin) ∧ playable wav
  | .indicF5, text, wav => ∃ audio, d.model text audio ∧
      Says wav 24000 (heardSamples d.np audio) ∧ (playable wav ↔ heardSamples d.np audio ≠ [])

/-- The workers' synthesis calls return what the engine may return. -/
def EngineAnswers (answers : String → Bytes → Prop) (p : Platform) (e : PlatformEvent) : Prop :=
  ∀ (i : Nat) (c : Call) (row : JobRow) (wav : Bytes),
    e = .service (.act i (.call (.synthesizeReturns wav))) →
      p.service.procs[i]? = some (.call c) → c.pc = .synthesizing row → answers row.inputText wav

end Statements

section IntegerAudio

/-- A power of two that brings a sample to 16 significant bits. -/
theorem exists_scale
    {n : Nat}
    (hpos : 0 < n)
    (hle : n ≤ 32768) :
    ∃ k : Nat, k ≤ 15 ∧ 2 ^ 15 ≤ n * 2 ^ k ∧ n * 2 ^ k ≤ 2 ^ 16 := by
  have hlow := Nat.pow_log_le_self 2 hpos.ne'
  have hhigh := Nat.lt_pow_succ_log_self (b := 2) (by norm_num) n
  have hlog : Nat.log 2 n ≤ 15 :=
    (Nat.log_mono_right hle).trans (Nat.log_pow (b := 2) (by norm_num) 15).le
  refine ⟨15 - Nat.log 2 n, by omega, ?_, ?_⟩
  · calc 2 ^ 15 = 2 ^ Nat.log 2 n * 2 ^ (15 - Nat.log 2 n) := by
          rw [← Nat.pow_add, Nat.add_sub_cancel' hlog]
      _ ≤ n * 2 ^ (15 - Nat.log 2 n) := Nat.mul_le_mul_right _ hlow
  · calc n * 2 ^ (15 - Nat.log 2 n)
        ≤ 2 ^ (Nat.log 2 n + 1) * 2 ^ (15 - Nat.log 2 n) := Nat.mul_le_mul_right _ hhigh.le
      _ = 2 ^ 16 := by
          rw [← Nat.pow_add]
          congr 1
          omega

/-- The scaled sample is rounded below the integer that it came from, by a number with
16 significant bits in between. -/
theorem round_scaled_lt
    {n : Nat}
    (hpos : 0 < n)
    (hle : n ≤ 32768) :
    float32.round ((n : ℚ) / 32768 * 32767) < n := by
  obtain ⟨k, hk, hlow, hhigh⟩ := exists_scale hpos hle
  have hpow : (0 : ℚ) < 2 ^ k := by positivity
  have hbetween : float32.Representable ((((n * 2 ^ k : Nat) : ℤ) - 1 : ℤ) * 2 ^ (-(k : ℤ))) := by
    refine ⟨((n * 2 ^ k : Nat) : ℤ) - 1, -(k : ℤ), ?_, ?_, rfl⟩
    · simp only [float32]
      rw [abs_lt]
      omega
    · simp only [float32]
      omega
  have hvalue : (((((n * 2 ^ k : Nat) : ℤ) - 1 : ℤ) : ℚ) * 2 ^ (-(k : ℤ))) = n - 1 / 2 ^ k := by
    rw [zpow_neg, zpow_natCast]
    push_cast
    field_simp
  rw [hvalue] at hbetween
  have hbelow : (n : ℚ) / 32768 * 32767 ≤ n - 1 / 2 ^ k := by
    have hscale : (1 : ℚ) / 2 ^ k ≤ n / 32768 := by
      rw [div_le_div_iff₀ hpow (by norm_num)]
      have : ((2 ^ 15 : Nat) : ℚ) ≤ ((n * 2 ^ k : Nat) : ℚ) := by exact_mod_cast hlow
      push_cast at this
      linarith
    linarith
  have hround := FloatFormat.round_le hbetween hbelow
  have hstep : (0 : ℚ) < 1 / 2 ^ k := by positivity
  linarith

theorem truncate_round_scaled
    {n : Nat}
    (hpos : 0 < n)
    (hle : n ≤ 32768) :
    truncate (float32.round ((n : ℚ) / 32768 * 32767)) = (n : ℤ) - 1 := by
  have hn : (1 : ℚ) ≤ n := by exact_mod_cast hpos
  have hn' : (n : ℚ) ≤ 32768 := by exact_mod_cast hle
  have hlower : (((n : ℤ) - 1 : ℤ) : ℚ) ≤ float32.round ((n : ℚ) / 32768 * 32767) := by
    refine FloatFormat.le_round (float32_representable (by rw [abs_lt]; omega)) ?_
    push_cast
    linarith
  have hnonneg : 0 ≤ float32.round ((n : ℚ) / 32768 * 32767) := by
    push_cast at hlower
    linarith
  rw [truncate_of_nonneg hnonneg]
  have hfloor : (n : ℤ) - 1 ≤ ⌊float32.round ((n : ℚ) / 32768 * 32767)⌋ := Int.le_floor.mpr hlower
  have hlt : ⌊float32.round ((n : ℚ) / 32768 * 32767)⌋ < (n : ℤ) := by
    rw [Int.floor_lt]
    exact_mod_cast round_scaled_lt hpos hle
  omega

/-- A 16-bit integer divided by 32768 is a number of the format. -/
theorem ofRat_scaled
    (s : Int16) :
    float32.ofRat ((s.toInt : ℚ) / 32768) = .finite ((s.toInt : ℚ) / 32768) := by
  have hlow := s.le_toInt
  have hhigh := s.toInt_lt
  have hlowQ : (-32768 : ℚ) ≤ s.toInt := by exact_mod_cast hlow
  have hhighQ : (s.toInt : ℚ) < 32768 := by exact_mod_cast hhigh
  refine FloatFormat.ofRat_of_representable ⟨s.toInt, -15, ?_, ?_, ?_⟩ ?_
  · simp only [float32]
    rw [abs_lt]
    omega
  · simp only [float32]
    omega
  · norm_num [div_eq_mul_inv]
  · have hunit : |(s.toInt : ℚ) / 32768| ≤ 1 := by
      rw [abs_le]
      constructor <;> linarith
    exact lt_of_le_of_lt hunit (by norm_num [float32])

theorem unitSample_eq
    (s : Int16) :
    unitSample s = .finite ((s.toInt : ℚ) / 32768) := by
  have hlow := s.le_toInt
  have hhigh := s.toInt_lt
  have hlowQ : (-32768 : ℚ) ≤ s.toInt := by exact_mod_cast hlow
  have hhighQ : (s.toInt : ℚ) < 32768 := by exact_mod_cast hhigh
  have hinteger : float32.ofRat (s.toInt : ℚ) = .finite (s.toInt : ℚ) := by
    refine FloatFormat.ofRat_of_representable (float32_representable (by rw [abs_lt]; omega)) ?_
    have hbound : |(s.toInt : ℚ)| ≤ 32768 := abs_le.mpr ⟨hlowQ, hhighQ.le⟩
    exact lt_of_le_of_lt hbound (by norm_num [float32])
  have hproduct : (s.toInt : ℚ) * (1 / 32768) = (s.toInt : ℚ) / 32768 := by ring
  rw [unitSample, FloatFormat.convert, hinteger, FloatFormat.times, hproduct, ofRat_scaled]

theorem clipped_unitSample
    (s : Int16) :
    clipped (unitSample s) = .finite ((s.toInt : ℚ) / 32768) := by
  have hlowQ : (-32768 : ℚ) ≤ s.toInt := by exact_mod_cast s.le_toInt
  have hhighQ : (s.toInt : ℚ) < 32768 := by exact_mod_cast s.toInt_lt
  have hlower : (-1 : ℚ) ≤ (s.toInt : ℚ) / 32768 := by linarith
  have hupper : (s.toInt : ℚ) / 32768 ≤ 1 := by linarith
  rw [unitSample_eq, clipped, FloatFormat.convert, ofRat_scaled, FloatValue.clip,
    max_eq_left hlower, min_eq_left hupper]

/-- **Integer samples.**  A sample that is not silence comes out one unit lower. -/
theorem toInt_level_unitSample
    (np : NumPy) (s : Int16) :
    (pcm16Level np (unitSample s)).toInt = s.toInt - s.toInt.sign := by
  have hlow := s.le_toInt
  have hhigh := s.toInt_lt
  have hlowQ : (-32768 : ℚ) ≤ s.toInt := by exact_mod_cast hlow
  have hhighQ : (s.toInt : ℚ) < 32768 := by exact_mod_cast hhigh
  rw [toInt_level (clipped_unitSample s) (by linarith) (by linarith)]
  rcases lt_trichotomy s.toInt 0 with hneg | hzero | hpos
  · obtain ⟨n, hn⟩ := Int.eq_ofNat_of_zero_le (by omega : 0 ≤ -s.toInt)
    have hvalue : (s.toInt : ℚ) / 32768 * 32767 = -((n : ℚ) / 32768 * 32767) := by
      have hcast : (s.toInt : ℚ) = -(n : ℚ) := by
        have : s.toInt = -(n : ℤ) := by omega
        rw [this]
        push_cast
        rfl
      rw [hcast]
      ring
    rw [hvalue, FloatFormat.round_neg, truncate_neg, truncate_round_scaled (by omega) (by omega),
      Int.sign_eq_neg_one_of_neg hneg]
    omega
  · have hvalue : (s.toInt : ℚ) / 32768 * 32767 = ((0 : ℤ) : ℚ) := by
      rw [hzero]
      norm_num
    rw [hvalue, FloatFormat.round_of_representable (float32_representable (by norm_num)),
      truncate_intCast, hzero]
    rfl
  · obtain ⟨n, hn⟩ := Int.eq_ofNat_of_zero_le hpos.le
    rw [hn, Int.cast_natCast, truncate_round_scaled (by omega) (by omega), ← hn,
      Int.sign_eq_one_of_pos hpos]

theorem pcm16_asFloats
    (np : NumPy) (audio : Samples) :
    pcm16 np (asFloats audio) = heardSamples np audio := by
  cases audio with
  | int16 xs =>
      simp only [asFloats, pcm16, heardSamples, List.map_map]
      refine List.map_congr_left fun s _ => ?_
      rw [Function.comp_apply, softened, ← toInt_level_unitSample np s, Int16.ofInt_toInt]
  | other xs => rfl

end IntegerAudio

section Tone

theorem float64_representable
    {m : ℤ} (e : ℤ)
    (hm : |m| < 2 ^ 53)
    (he : -1074 ≤ e) :
    float64.Representable (m * 2 ^ e) :=
  ⟨m, e, hm, he, rfl⟩

/-- The amplitude of the tone, with all roundings, is below 6553.5. -/
theorem amplitude_range :
    0 ≤ float64.round (32767 * float64.round (1 / 5)) ∧
      float64.round (32767 * float64.round (1 / 5)) ≤ 13107 * 2 ^ (-1 : ℤ) := by
  have hzero : float64.Representable 0 :=
    ⟨0, 0, by norm_num [float64], by norm_num [float64], by norm_num⟩
  have hfifth : float64.round (1 / 5) ≤ 838861 * 2 ^ (-22 : ℤ) :=
    FloatFormat.round_le (float64_representable (m := 838861) (-22) (by norm_num) (by norm_num))
      (by norm_num)
  have hnonneg : 0 ≤ float64.round (1 / 5) := FloatFormat.le_round hzero (by norm_num)
  constructor
  · exact FloatFormat.le_round hzero (by linarith)
  · refine FloatFormat.round_le
      (float64_representable (m := 13107) (-1) (by norm_num) (by norm_num)) ?_
    norm_num at hfifth ⊢
    linarith

theorem truncate_amplitude :
    truncate (13107 * 2 ^ (-1 : ℤ)) = 6553 := by
  rw [truncate_of_nonneg (by norm_num), Int.floor_eq_iff]
  norm_num

theorem toneSample_range
    (sin : MathSin) (i : Nat) :
    |toneSample sin i| ≤ 6553 := by
  obtain ⟨hnonneg, hle⟩ := amplitude_range
  obtain ⟨hlow, hhigh⟩ := abs_le.mp (sin.bound i)
  have hbound : float64.Representable (13107 * 2 ^ (-1 : ℤ)) :=
    float64_representable (m := 13107) (-1) (by norm_num) (by norm_num)
  have hupper : float64.round (32767 * float64.round (1 / 5)) * sin.value i ≤
      13107 * 2 ^ (-1 : ℤ) :=
    (mul_le_of_le_one_right hnonneg hhigh).trans hle
  have hlower : -(13107 * 2 ^ (-1 : ℤ)) ≤
      float64.round (32767 * float64.round (1 / 5)) * sin.value i := by
    have := mul_le_mul_of_nonneg_left hlow hnonneg
    linarith
  have habove := truncate_mono (FloatFormat.round_le hbound hupper)
  have hbelow := truncate_mono (FloatFormat.le_round (FloatFormat.representable_neg hbound) hlower)
  rw [truncate_neg, truncate_amplitude] at hbelow
  rw [truncate_amplitude] at habove
  exact abs_le.mpr ⟨hbelow, habove⟩

theorem frames_of_tone
    (sin : MathSin) (indices : List Nat) :
    indices.mapM (fun i => structPackInt16 (toneSample sin i)) =
      .ok (indices.map fun i => int16Bytes (Int16.ofInt (toneSample sin i))) := by
  induction indices with
  | nil => rfl
  | cons i indices ih =>
      obtain ⟨hlow, hhigh⟩ := abs_le.mp (toneSample_range sin i)
      have hpack : structPackInt16 (toneSample sin i) =
          .ok (int16Bytes (Int16.ofInt (toneSample sin i))) :=
        if_pos (by omega)
      rw [List.mapM_cons, hpack, ih]
      rfl

/-- What the fake engine returns. -/
theorem fakeSynthesize_eq
    (np : NumPy) (sin : MathSin) :
    fakeSynthesize sin = pcm16WavBytes np (.int16 (tone sin)) 22050 := by
  have hframes : ((List.range toneLength).map fun i =>
      int16Bytes (Int16.ofInt (toneSample sin i))).flatten = (tone sin).flatMap int16Bytes := by
    rw [tone, List.flatMap_map, List.flatMap_def]
  have hwrite : ∀ frames : List Bytes,
      (Except.ok frames >>= fun frames => writeWave ⟨1, 2, 22050⟩ frames.flatten) =
        writeWave ⟨1, 2, 22050⟩ frames.flatten :=
    fun _ => rfl
  rw [fakeSynthesize, frames_of_tone, hwrite, hframes, pcm16WavBytes, pcm16_int16]

theorem length_tone
    (sin : MathSin) :
    (tone sin).length = 11025 := by
  rw [tone, List.length_map, List.length_range]
  rfl

/--
**The fake recording.**  Whatever the values of the sine, the fake engine never raises:
its file has 44 bytes of header and half a second at 22050 samples a second, none of them
beyond 6553, and a reader finds exactly these samples in it.
-/
theorem fake_recording
    (sin : MathSin) :
    ∃ file, fakeSynthesize sin = .ok file ∧ file.length = 22094 ∧ playable file ∧
      Says file 22050 (tone sin) ∧ (tone sin).length = 11025 ∧
        ∀ s, s ∈ tone sin → |s.toInt| ≤ 6553 := by
  have hlength := length_tone sin
  -- The fake engine needs no NumPy; that of its file is as good as any.
  have hwritten : ∃ file, pcm16WavBytes ⟨0⟩ (.int16 (tone sin)) 22050 = .ok file := by
    refine ⟨_, pcm16WavBytes_eq_ok.mpr ⟨?_, rfl⟩⟩
    rw [pcm16_int16, hlength]
    norm_num [FileFits]
  obtain ⟨file, hfile⟩ := hwritten
  have htext := says_of_written hfile
  rw [pcm16_int16] at htext
  refine ⟨file, (fakeSynthesize_eq ⟨0⟩ sin).trans hfile, ?_, ?_, htext, hlength, ?_⟩
  · rw [length_of_written hfile, pcm16_int16, hlength]
  · rw [playable_of_written hfile, pcm16_int16, ← List.length_pos_iff, hlength]
    norm_num
  · intro s hs
    obtain ⟨i, _, rfl⟩ := List.mem_map.mp hs
    have hrange := toneSample_range sin i
    obtain ⟨hlow, hhigh⟩ := abs_le.mp hrange
    rw [Int16.toInt_ofInt_of_le (by omega) (by omega)]
    exact hrange

end Tone

section Playing

variable {d : PlatformDeps} {ed : EngineDeps} {engine : Engine}
variable {p q : Platform} {e : PlatformEvent} {es : List PlatformEvent}

/-- What an engine returns is what is heard. -/
theorem heard_of_returns
    {text : String} {wav : Bytes}
    (h : engine.Returns ed text wav) :
    engine.Heard ed text wav := by
  cases engine with
  | fake =>
      have hfile : pcm16WavBytes ed.np (.int16 (tone ed.sin)) 22050 = .ok wav :=
        (fakeSynthesize_eq ed.np ed.sin).symm.trans h
      have htext := says_of_written hfile
      rw [pcm16_int16] at htext
      refine ⟨htext, ?_⟩
      rw [playable_of_written hfile, pcm16_int16, ← List.length_pos_iff, length_tone]
      norm_num
  | indicF5 =>
      obtain ⟨audio, haudio, hfile⟩ := h
      have htext := says_of_written hfile
      have hplayable := playable_of_written hfile
      rw [pcm16_asFloats] at htext hplayable
      exact ⟨audio, haudio, htext, hplayable⟩

/-- A step of the service brings in a recording only where a synthesis returns. -/
theorem synthesized_of_serviceStep
    {s t : Service} {e : ServiceEvent} {text : String} {wav : Bytes}
    (hok : ServiceOk d.gateway s)
    (hs : (service d.gateway).machine.step s e = some t)
    (hmem : (text, wav) ∈ t.world.synthesized) :
    (text, wav) ∈ s.world.synthesized ∨
      ∃ (i : Nat) (c : Call) (row : JobRow), e = .act i (.call (.synthesizeReturns wav)) ∧
        s.procs[i]? = some (.call c) ∧ c.pc = .synthesizing row ∧ row.inputText = text := by
  cases serviceStep_of_step hs with
  | spawn => exact Or.inl hmem
  | @handler i h h' _ w hp hstep =>
      rw [(handlerFrame_of_handlerStep hstep rfl (hok.2 i _ hp)).synthesized] at hmem
      exact Or.inl hmem
  | @call i c c' event w hp _ hstep =>
      generalize hpc : c.pc = pc, c'.pc = pc' at hstep
      cases hstep with
      | synthesizeReturns row wav' =>
          rcases List.mem_cons.mp hmem with heq | hold
          · cases heq
            exact Or.inr ⟨i, c, row, rfl, hp, hpc, rfl⟩
          · exact Or.inl hold
      | _ => exact Or.inl hmem
  | @env b _ henv =>
      cases b <;> cases henv <;> exact Or.inl hmem

/-- Every recording is one that the engine may return for its text. -/
theorem returned_of_run
    {answers : String → Bytes → Prop}
    (hrun : Machine.Run (platform d) (EngineAnswers answers) Platform.initial es p) :
    ∀ text wav, (text, wav) ∈ p.service.world.synthesized → answers text wav := by
  refine Machine.run_invariant_of_known (K := Known d)
    (I := fun p => ∀ text wav, (text, wav) ∈ p.service.world.synthesized → answers text wav)
    (fun _ _ h => known_of_run (Machine.run_weaken (fun _ _ _ => trivial) h)) ?_ hrun ?_
  · intro p e q hknown _ hI hG hs text wav hmem
    cases platformStep_of_step hs with
    | service _ hservice =>
        rcases synthesized_of_serviceStep hknown.service hservice hmem with
          hold | ⟨i, c, row, rfl, hp, hpc, rfl⟩
        · exact hI text wav hold
        · exact hG i c row wav rfl hp hpc
    | _ => exact hI text wav hmem
  · intro text wav hmem
    cases hmem

/--
**What is played.**  For every interleaving of the whole platform in which the workers'
synthesis calls return what their engine may return for the text they were given: the
bytes of a GET answered with a recording name the rate, one channel and 16 bits, and hold,
sample for sample, what the engine made of the text of the very job that the GET names,
which was submitted with a key of the account whose key let the GET through.  For IndicF5
these are the levels of an array that the model may return for that text, or, where it
returned 16-bit integers, its samples one unit closer to silence.
-/
theorem played_recordings
    {i : Nat} {r : Read} {status : Nat} {data : Bytes}
    (hrun : Machine.Run (platform d) (EngineAnswers (engine.Returns ed)) Platform.initial es p)
    (hr : p.reads[i]? = some r)
    (hpc : r.pc = .answered (.success status (.audio data))) :
    ∃ a u b, a.started = .read i ∧ Authorized d p a u ∧ SubmittedBy d p u b ∧
      r.request = .audio b.id.text ∧ engine.Heard ed b.inputText data := by
  have hany : PlatformRun d es p := Machine.run_weaken (fun _ _ _ => trivial) hrun
  have hok := platformOk_of_run hany
  have hread := hok.reads i r hr
  rw [ReadOk, hpc] at hread
  obtain ⟨user, ⟨a, ha, hstarted, _, rfl⟩, hshown⟩ := hread
  obtain ⟨u, hauthorized⟩ := authorized_of_admitted hok ha
  obtain ⟨b, hb, hrequest, hmem⟩ := hshown.audio data rfl
  exact ⟨a, u, b, hstarted, hauthorized, submittedBy_of_authorized hany hauthorized hb, hrequest,
    heard_of_returns (returned_of_run hrun _ _ hmem)⟩

end Playing

section Samples

/-- A model that answers every text with two integer samples. -/
def sampleEngines : EngineDeps where
  np := ⟨0⟩
  sin := ⟨fun _ => 0, fun _ => by norm_num⟩
  model := fun _ audio => audio = .int16 [1000, -1000]

/-- Its recording. -/
def sampleWav : Bytes :=
  (monoParams 24000).header 4 ++ [999, -999].flatMap int16Bytes

theorem sampleWav_returned
    (text : String) :
    Engine.indicF5.Returns sampleEngines text sampleWav := by
  refine ⟨_, rfl, pcm16WavBytes_eq_ok.mpr ?_⟩
  have hsamples : heardSamples sampleEngines.np (.int16 [1000, -1000]) = [999, -999] := by
    decide
  rw [pcm16_asFloats, hsamples]
  exact ⟨by norm_num [FileFits], rfl⟩

/-- Every synthesis returns the sample recording. -/
def returnsSampleWav (_ : Platform) : PlatformEvent → Bool
  | .service (.act _ (.call (.synthesizeReturns wav))) => decide (wav = sampleWav)
  | _ => true

theorem answers_of_returnsSampleWav
    (p : Platform) (e : PlatformEvent)
    (h : returnsSampleWav p e = true) :
    EngineAnswers (Engine.indicF5.Returns sampleEngines) p e := by
  rintro i c row wav rfl _ _
  rw [of_decide_eq_true h]
  exact sampleWav_returned row.inputText

theorem played_recordings_sample :
    ∃ (p : Platform) (u : User) (b : Job),
      Machine.Run (platform samplePlatform)
          (EngineAnswers (Engine.indicF5.Returns sampleEngines)) Platform.initial
          (recordingPlayedOf sampleWav) p ∧
        SubmittedBy samplePlatform p u b ∧
      sampleWav.length = 48 ∧ Engine.indicF5.Heard sampleEngines b.inputText sampleWav := by
  have hexec : ((platform samplePlatform).exec returnsSampleWav Platform.initial
      (recordingPlayedOf sampleWav)).any
      (fun p => p.reads[0]?.any fun r =>
        decide (r.pc.response? = some (.success 200 (.audio sampleWav)))) = true := by
    decide +kernel
  obtain ⟨p, hrun, hread⟩ := Machine.exists_run_of_exec answers_of_returnsSampleWav hexec
  obtain ⟨r, hr, hpc⟩ := (Option.any_eq_true _ _).mp hread
  obtain ⟨_, u, b, _, _, hsubmitted, _, hheard⟩ :=
    played_recordings hrun hr (answered_of_response? (of_decide_eq_true hpc))
  exact ⟨p, u, b, hrun, hsubmitted, by decide, hheard⟩

end Samples

end BengaliTts
