import Montage.Proofs.Chunk.Coherence
import Montage.Proofs.Number.Quotient
import Montage.Proofs.Preview.Sound

/-!
# Looking up the chunk that shows a time

The windows of a timeline start at multiples of their length, and each multiple is rounded. A time is
looked up by a division, which is rounded down without an error. So a time is found in the window that it
is in, unless it is the very start of the window and the multiple was rounded down: then it is below the
multiple, and the chunk before is found.

## Main results

* `truncate_floorDiv_of_mem` — the quotient of a time in a window
* `CacheState.indexAt?_after` — the chunk that is found and shown at a time, after any calls
-/

namespace Montage

open Double

section Windows

variable {duration chunkDuration t : Double} {i : Nat}

/-- The length of a window that some time is in is a number above zero, and so is the time, unless it
is zero. -/
theorem exists_units_of_mem (length : ¬ chunkDuration ≤ Scalar.zero)
    (start : (windowAt duration chunkDuration i).start ≤ t)
    (before : t < (windowAt duration chunkDuration i).stop) :
    ∃ units fits negative count fits', 0 < units ∧ chunkDuration = finite false units fits ∧
      t = finite negative count fits' ∧ (negative = true → count = 0) ∧
      multiplePlace units i ≤ count ∧ count < multiplePlace units (i + 1) := by
  obtain ⟨a, m, hstart, hm, above⟩ := le_iff.mp start
  obtain ⟨m', stop, hm', hstop, below⟩ := lt_iff.mp before
  obtain rfl := Option.some.inj (hm.symm.trans hm')
  obtain ⟨next, hnext, le⟩ := minOf_not_above hstop
  change (mul (Scalar.whole i) chunkDuration).position? = some a at hstart
  change (mul (Scalar.whole (i + 1)) chunkDuration).position? = some next at hnext
  rcases eq_of_not_le_zero length with rfl | rfl | ⟨units, fits, positive, rfl⟩
  · rw [mul_nan] at hstart
    exact absurd hstart (by simp [position?])
  · rw [whole_eq_nearest] at hstart hnext
    have := mul_infinite_place hstart
    have := mul_infinite_place hnext
    omega
  · have hstart := Option.some.inj (hstart.symm.trans (position?_whole_mul fits positive))
    have hnext := Option.some.inj (hnext.symm.trans (position?_whole_mul fits positive))
    have inside : multiplePlace units (i + 1) ≤ limit := by
      unfold multiplePlace
      split
      · exact min_le_right _ _
      · exact Nat.le_refl _
    cases t with
    | nan => cases hm
    | infinite negative =>
      have place : signed negative limit = m := Option.some.inj hm
      have := limit_pos
      cases negative <;> simp only [signed, if_true, if_false, Bool.false_eq_true] at place <;> omega
    | finite negative count fits' =>
      have place : signed negative count = m := Option.some.inj hm
      refine ⟨units, fits, negative, count, fits', positive, rfl, rfl, ?_⟩
      cases negative with
      | false =>
        simp only [signed, Bool.false_eq_true, if_false] at place
        exact ⟨by simp, by omega, by omega⟩
      | true =>
        simp only [signed, if_true] at place
        exact ⟨fun _ => by omega, by omega, by omega⟩

/-- A time in a window is a time of the timeline. -/
theorem inside_of_mem (length : ¬ chunkDuration ≤ Scalar.zero)
    (start : (windowAt duration chunkDuration i).start ≤ t)
    (before : t < (windowAt duration chunkDuration i).stop) :
    ¬ (t < Scalar.zero ∨ duration ≤ t) := by
  rintro (negative | beyond)
  · obtain ⟨units, fits, sign, count, fits', -, -, same, zero, -⟩ :=
      exists_units_of_mem length start before
    have upright : 0 ≤ signed sign count := by
      cases sign <;> simp [signed, zero]
    have place : t.position? = some (signed sign count) := by rw [same]; rfl
    exact not_lt_of_position? place position?_zero upright negative
  · unfold windowAt Scalar.minOf at before
    dsimp only at before
    split at before
    · exact not_le_of_lt before beyond
    · next whole => exact whole (Double.lt_of_le_of_lt beyond before)

theorem mul_div_le_div_iff {units count unit : Nat} (positive : 0 < unit) :
    (i : Rat) * (units / unit) ≤ count / unit ↔ i * units ≤ count := by
  rw [← mul_div_assoc, div_le_div_iff_of_pos_right (Nat.cast_pos.mpr positive)]
  exact_mod_cast Iff.rfl

/-- Divided by the length, a time in a window gives the place of the window, or the place before it if
the time is the start of the window and below the exact multiple. -/
theorem truncate_floorDiv_of_mem (length : ¬ chunkDuration ≤ Scalar.zero) (few : i < 2 ^ 51)
    (start : (windowAt duration chunkDuration i).start ≤ t)
    (before : t < (windowAt duration chunkDuration i).stop) :
    ∃ exact time : Rat, chunkDuration.value = .ok exact ∧ t.value = .ok time ∧
      Scalar.truncate (Scalar.floorDiv t chunkDuration) =
        .ok ((if i * exact ≤ time then i else i - 1 : Nat) : Int) ∧
      (time < i * exact → 0 < i ∧ (t == (windowAt duration chunkDuration i).start) = true) := by
  obtain ⟨units, fits, negative, count, fits', positive, rfl, rfl, above, low, high⟩ :=
    exists_units_of_mem length start before
  have bounded := fits'.bounded
  rw [multiplePlace_eq (by omega)] at low high
  have self := roundBits_self fits'.bits
  -- Rounding keeps the order, so the time is below the exact end of the window.
  have below : count < (i + 1) * units := by
    by_contra beyond
    have := roundBits_mono Nat.one_pos (Nat.not_lt.mp beyond)
    omega
  have border : count < i * units → count = min (roundBits (i * units) 1) limit := fun less => by
    have := roundBits_mono Nat.one_pos less.le
    omega
  have exactly : (i : Rat) * (units / one) ≤ count / one ↔ i * units ≤ count :=
    mul_div_le_div_iff Double.one_pos
  have end_eq : (i + 1) * units = i * units + units := Nat.succ_mul i units
  have place : count / units = if i * units ≤ count then i else i - 1 := by
    split
    · next whole => exact (Nat.div_eq_iff positive).mpr ⟨whole, by omega⟩
    · next rounded =>
      obtain ⟨j, rfl⟩ : ∃ j, i = j + 1 :=
        Nat.exists_eq_succ_of_ne_zero (by rintro rfl; omega)
      have near := (four_mul_roundBits_mul units few).2
      rw [Nat.mul_assoc] at near
      have start_eq : (j + 1) * units = j * units + units := Nat.succ_mul j units
      have := border (Nat.not_le.mp rounded)
      rw [Nat.add_sub_cancel]
      exact (Nat.div_eq_iff positive).mpr ⟨by omega, by omega⟩
  refine ⟨units / one, count / one, value_upright fits (by simp), value_upright fits' above, ?_, ?_⟩
  · rw [truncate_floorDiv fits' fits positive above (by rw [place]; split <;> omega), place]
    simp only [exactly]
  · intro rounded
    have less : count < i * units := Nat.not_le.mp fun whole => absurd (exactly.mpr whole) (not_le.mpr rounded)
    refine ⟨Nat.pos_of_ne_zero (by rintro rfl; omega), beq_iff.mpr ⟨count, ?_, ?_⟩⟩
    · cases negative with
      | false => rfl
      | true => simp [position?, signed, above]
    · rw [border less, ← multiplePlace_eq (by omega)]
      exact position?_whole_mul fits positive

end Windows

/-! ### Chunks -/

/-- A time in the window of a chunk is looked up as it is in the window. -/
theorem Cache.IsCut.indexAt? {cache : Cache Double} (cut : cache.IsCut)
    (length : ¬ cache.chunkDuration ≤ Scalar.zero) {i : Nat} (few : i < 2 ^ 51) {chunk : Chunk Double}
    (there : cache.chunks[i]? = some chunk) {t : Double} (start : chunk.start ≤ t) (before : t < chunk.stop) :
    ∃ exact time : Rat, cache.chunkDuration.value = .ok exact ∧ t.value = .ok time ∧
      cache.indexAt? t = .ok (some (if i * exact ≤ time then i else i - 1)) ∧
      (time < i * exact → 0 < i ∧ (t == chunk.start) = true) := by
  have window : (cache.chunks.map Chunk.window)[i]? = some chunk.window := by
    rw [List.getElem?_map, there]
    rfl
  obtain ⟨-, same⟩ := partition_getElem? cut window
  have start_eq : chunk.start = (windowAt cache.totalDuration cache.chunkDuration i).start :=
    congrArg Window.start same
  have stop_eq : chunk.stop = (windowAt cache.totalDuration cache.chunkDuration i).stop :=
    congrArg Window.stop same
  rw [start_eq] at start ⊢
  rw [stop_eq] at before
  obtain ⟨exact, time, lengthIs, timeIs, whole, border⟩ := truncate_floorDiv_of_mem length few start before
  refine ⟨exact, time, lengthIs, timeIs, ?_, border⟩
  have placed : i < cache.chunks.length := (List.getElem?_eq_some_iff.mp there).1
  rw [Cache.indexAt?, if_neg (inside_of_mem length start before), whole]
  -- The place is one of a chunk.
  have known : (if i * exact ≤ time then i else i - 1) ≤ i := by split <;> omega
  generalize (if i * exact ≤ time then i else i - 1) = place at known
  have least : min (place : Int) ((cache.chunks.length : Int) - 1) = place := by omega
  change Except.ok (if 0 ≤ min (place : Int) ((cache.chunks.length : Int) - 1)
    then some (min (place : Int) ((cache.chunks.length : Int) - 1)).toNat else none) = _
  rw [least, if_pos (Int.natCast_nonneg _), Int.toNat_natCast]

/-- The player shows the chunk that is looked up, or the timeline from its start. -/
theorem SessionAction.playbackAt_of_indexAt? {studio : Studio} {t : Double} {place : Nat}
    {chunk : Chunk Double} (found : studio.store.cache.indexAt? t = .ok (some place))
    (there : studio.store.cache.chunks[place]? = some chunk) :
    ∃ playback, value? (playbackAt t) studio = some playback ∧
      playback.index = some place ∧ playback.start = chunk.start := by
  suffices shows : Ensures (playbackAt t) studio
      (fun playback _ => playback.index = some place ∧ playback.start = chunk.start) fun _ => False from
    shows.exists_value
  have lifted : (liftM (Except.ok (some place) : Except NumberError (Option Nat)) :
      Except Failure (Option Nat)) = .ok (some place) := rfl
  unfold playbackAt
  rw [ensures_bind, ensures_cache, ensures_bind, ensures_liftM, found, lifted]
  dsimp only
  rw [Option.bind_some, there]
  exact ⟨rfl, rfl⟩

/-- Calls come in any order on a new cache, and each may fail. A time in the window of a chunk is looked up
there, and the player shows that chunk, if and only if the time is not below the exact multiple of the length
of the windows at which the window should start. If it is below, it is the start of the window, which was
rounded down, and the chunk before is looked up and shown. (No list has `2 ^ 51` chunks.) -/
theorem CacheState.indexAt?_after {config : Config} {now : Timestamp} {folder : Path}
    {chunkDuration : Option Double} {settings : Option (OutputFormat Double)} {cache : Cache Double}
    (created : Cache.create config now folder chunkDuration settings = .ok cache) (disk : Disk)
    (calls : List (CacheCall Double)) :
    let reached : CacheState Double := ({ cache, disk } : CacheState Double).after calls
    ∀ (i : Nat) chunk (t : Double), i < 2 ^ 51 → reached.cache.chunks[i]? = some chunk →
      chunk.start ≤ t → t < chunk.stop →
      ∃ length time : Rat, cache.chunkDuration.value = .ok length ∧ t.value = .ok time ∧
        (time < i * length → 0 < i ∧ (t == chunk.start) = true) ∧
        let place := if i * length ≤ time then i else i - 1
        reached.cache.indexAt? t = .ok (some place) ∧
        ∃ found, reached.cache.chunks[place]? = some found ∧
          ∀ studio : Studio, studio.store = reached →
            ∃ playback, value? (SessionAction.playbackAt t) studio = some playback ∧
              playback.index = some place ∧ playback.start = found.start := by
  intro reached i chunk t few there start before
  have fresh := Cache.create_isFresh created
  obtain ⟨length, cut⟩ : reached.cache.chunkDuration = cache.chunkDuration ∧
      (reached.cache.IsCut ∨ reached.cache.chunks = []) := by
    refine after_of_throughout (fun _ _ => True)
      (fun now => now.chunkDuration = cache.chunkDuration ∧ (now.IsCut ∨ now.chunks = [])) ?_ fresh.orderly
      (throughout_of_forall (fun _ _ => trivial) _ calls) ⟨rfl, .inl fresh.isCut⟩
    exact fun effect orderly kept _ ⟨length, cut⟩ =>
      ⟨kept.trans length, (effect.isCut orderly kept cut).1⟩
  have cut : reached.cache.IsCut := cut.resolve_right fun none => by simp [none] at there
  obtain ⟨exact, time, lengthIs, timeIs, looked, border⟩ :=
    cut.indexAt? (length ▸ fresh.length) few there start before
  refine ⟨exact, time, length ▸ lengthIs, timeIs, border, looked, ?_⟩
  have known : (if i * exact ≤ time then i else i - 1) < reached.cache.chunks.length := by
    have := (List.getElem?_eq_some_iff.mp there).1
    split <;> omega
  refine ⟨_, List.getElem?_eq_getElem known, fun studio same => ?_⟩
  exact SessionAction.playbackAt_of_indexAt? (by rw [same, looked])
    (by rw [same, List.getElem?_eq_getElem known])

/-! ### Windows of a tenth of a second -/

namespace Tenths

/-- A number of tenths. -/
def tenths (n : Nat) : Double := ofDecimal false n (-1)

/-- A new cache whose windows are a tenth of a second long. -/
def first : CacheState Double where
  cache := {
    folder := Path.ofText "cache", chunkDuration := tenths 1, settings := {}, totalDuration := Scalar.zero
    createdAt := Overtaken.day }
  disk := { now := Overtaken.day }

theorem create_first :
    Cache.create {} Overtaken.day (Path.ofText "cache") (some (tenths 1)) (some {}) = .ok first.cache := by
  have nonzero : (tenths 1).isZero = false := by decide +kernel
  have above : ¬ tenths 1 ≤ Scalar.zero := by decide +kernel
  have given (default : Double) : ((some (tenths 1)).filter (!·.isZero)).getD default = tenths 1 := by
    simp [Option.filter, nonzero]
  unfold Cache.create
  dsimp only
  rw [given, if_neg above]
  rfl

/-- Six tenths of a second are cut into windows. -/
def cuts : List (CacheCall Double) := [.change (.repartition (tenths 6))]

/-- A time is in the window of the chunk at a place. -/
def shows (i : Nat) (t : Double) : Bool :=
  (first.after cuts).cache.chunks[i]?.any fun chunk => decide (chunk.start ≤ t) && decide (t < chunk.stop)

end Tenths

open Tenths

/-- Three tenths of a second is in the third window, and is looked up there. -/
theorem three_tenths_are_found :
    shows 2 (tenths 3) = true ∧ (first.after cuts).cache.indexAt? (tenths 3) = .ok (some 2) := by
  have shown : shows 2 (tenths 3) = true := by decide +kernel
  have behind : ((tenths 1).value.toOption.bind fun length => (tenths 3).value.toOption.map fun time =>
      decide ((2 : Nat) * length ≤ time)) = some true := by decide +kernel
  obtain ⟨chunk, there, inside⟩ := (Option.any_eq_true _ _).mp shown
  obtain ⟨start, before⟩ := Bool.and_eq_true_iff.mp inside
  have whole : CacheState.mk first.cache first.disk = first := rfl
  have found := CacheState.indexAt?_after create_first first.disk cuts
  rw [whole] at found
  obtain ⟨length, time, lengthIs, timeIs, -, looked, -⟩ := found 2 chunk (tenths 3) (by decide) there
    (of_decide_eq_true start) (of_decide_eq_true before)
  have same : first.cache.chunkDuration = tenths 1 := by rw [first]
  rw [same] at lengthIs
  rw [lengthIs, timeIs] at behind
  rw [if_pos (of_decide_eq_true (Option.some.inj behind))] at looked
  exact ⟨shown, looked⟩

/-- Half a second is the start of the sixth window, but five times the double nearest to a tenth is above
it: the fifth chunk is looked up and shown. -/
theorem exists_misplaced_time :
    shows 5 (tenths 5) = true ∧ shows 4 (tenths 5) = false ∧
      (first.after cuts).cache.indexAt? (tenths 5) = .ok (some 4) := by
  refine ⟨by decide +kernel, by decide +kernel, by decide +kernel⟩

end Montage
