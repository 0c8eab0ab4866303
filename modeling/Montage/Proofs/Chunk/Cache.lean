import Mathlib.Data.List.Nodup
import Montage.Proofs.Action
import Montage.Proofs.Chunk.Demotion

/-!
# What becomes of a cache

`Cache.Orderly` holds of every cache: its chunks stand at their places and can be told apart. Every
action that renders nothing cuts the cache anew at most, `Cache.Recut`: what is left of its chunks
was demoted at most, and all others are new. Each action comes with what holds when it returns and
what holds when it fails.
-/

namespace Montage

variable {τ : Type}

namespace Cache

/-- Each chunk stands at its place and has a number of its own, and no chunk is rendered at a
generation that it has not reached. -/
structure Orderly (cache : Cache τ) : Prop where
  placed : ∀ (i : Nat) (chunk : Chunk τ), cache.chunks[i]? = some chunk → chunk.index = i
  distinct : (cache.chunks.map (·.serial)).Nodup
  numbered : ∀ chunk ∈ cache.chunks, chunk.serial < cache.nextSerial
  begun : ∀ chunk ∈ cache.chunks, ∀ g, chunk.renderGeneration = some g → g ≤ chunk.generation

/-- A chunk that a cache did not have before its serial numbers reached `serial`. It has not been
rendered by this cache. -/
structure IsNew (serial : Nat) (chunk : Chunk τ) : Prop where
  serial_le : serial ≤ chunk.serial
  status : chunk.status = .missing ∨ chunk.status = .valid
  renderGeneration : chunk.renderGeneration = none

theorem IsNew.mono {serial serial' : Nat} {chunk : Chunk τ} (h : IsNew serial' chunk)
    (le : serial ≤ serial') : IsNew serial chunk :=
  ⟨Nat.le_trans le h.serial_le, h.status, h.renderGeneration⟩

/-- A cache after its chunks were demoted, left out or replaced by new ones. -/
structure Recut (before after : Cache τ) : Prop where
  orderly : before.Orderly → after.Orderly
  nextSerial : before.nextSerial ≤ after.nextSerial
  chunks : ∀ chunk ∈ after.chunks,
    (∃ old ∈ before.chunks, old.Demoted chunk) ∨ IsNew before.nextSerial chunk
  settings : after.settings = before.settings

/-- A recut that makes no new chunks. -/
structure Demotes (before after : Cache τ) : Prop extends Recut before after where
  same : after.nextSerial = before.nextSerial

/-- Two caches with the same chunks for the same output. -/
structure Resembles (before after : Cache τ) : Prop where
  chunks : after.chunks = before.chunks
  nextSerial : after.nextSerial = before.nextSerial
  settings : after.settings = before.settings

protected theorem Resembles.refl (cache : Cache τ) : cache.Resembles cache := ⟨rfl, rfl, rfl⟩

/-- The end of a render changes one chunk, if anything. -/
def Concludes (before after : Cache τ) (index : Int) (leads : Chunk τ → Chunk τ → Prop) : Prop :=
  after = before ∨ ∃ old new, before.get index = .ok old ∧ old.Concluded new ∧ leads old new ∧
    after = before.put new

namespace Orderly

variable {cache : Cache τ}

theorem getElem?_index (orderly : cache.Orderly) {chunk : Chunk τ} (h : chunk ∈ cache.chunks) :
    cache.chunks[chunk.index]? = some chunk := by
  obtain ⟨i, hi⟩ := List.mem_iff_getElem?.mp h
  rw [orderly.placed i chunk hi, hi]

theorem eq_of_index (orderly : cache.Orderly) {a b : Chunk τ} (ha : a ∈ cache.chunks)
    (hb : b ∈ cache.chunks) (h : a.index = b.index) : a = b := by
  have := orderly.getElem?_index ha
  rw [h, orderly.getElem?_index hb] at this
  exact (Option.some.inj this).symm

theorem eq_of_serial (orderly : cache.Orderly) {a b : Chunk τ} (ha : a ∈ cache.chunks)
    (hb : b ∈ cache.chunks) (h : a.serial = b.serial) : a = b :=
  List.inj_on_of_nodup_map orderly.distinct ha hb h

end Orderly

theorem get_eq_ok {cache : Cache τ} {index : Int} {chunk : Chunk τ} :
    cache.get index = .ok chunk ↔ ∃ i : Nat, index = i ∧ cache.chunks[i]? = some chunk := by
  unfold get
  constructor
  · intro h
    split at h
    · next found =>
      obtain rfl := Except.ok.inj h
      split at found
      · exact absurd found (by simp)
      · next nonneg => exact ⟨index.toNat, by omega, found⟩
    · exact absurd h (by simp)
  · rintro ⟨i, rfl, hi⟩
    simp [hi, show ¬ (i : Int) < 0 by omega]

theorem mem_of_get {cache : Cache τ} {index : Int} {chunk : Chunk τ}
    (h : cache.get index = .ok chunk) : chunk ∈ cache.chunks := by
  obtain ⟨i, -, hi⟩ := get_eq_ok.mp h
  exact List.mem_of_getElem? hi

namespace Orderly

variable {cache : Cache τ}

/-- The chunk at a place of the partition. -/
theorem get_index (orderly : cache.Orderly) {chunk : Chunk τ} (h : chunk ∈ cache.chunks) :
    cache.get chunk.index = .ok chunk :=
  get_eq_ok.mpr ⟨chunk.index, rfl, orderly.getElem?_index h⟩

theorem index_of_get (orderly : cache.Orderly) {index : Int} {chunk : Chunk τ}
    (h : cache.get index = .ok chunk) : (chunk.index : Int) = index := by
  obtain ⟨i, rfl, hi⟩ := get_eq_ok.mp h
  rw [orderly.placed i chunk hi]

end Orderly

/-- Chunks that stay what they are keep a cache in order. -/
theorem Orderly.follows {before after : Cache τ} (orderly : before.Orderly)
    (each : List.Forall₂ Chunk.Follows before.chunks after.chunks)
    (serial : before.nextSerial ≤ after.nextSerial) : after.Orderly where
  placed i chunk hi := by
    obtain ⟨old, hold, follows⟩ := forall₂_getElem? each hi
    rw [follows.index, orderly.placed i old hold]
  distinct := by
    have serials : before.chunks.map (·.serial) = after.chunks.map (·.serial) :=
      map_eq_map_of_forall₂ (each.imp fun _ _ h => h.serial.symm)
    rw [← serials]
    exact orderly.distinct
  numbered chunk h := by
    obtain ⟨old, hold, follows⟩ := forall₂_mem each h
    rw [follows.serial]
    exact Nat.lt_of_lt_of_le (orderly.numbered old hold) serial
  begun chunk h g hg := by
    obtain ⟨old, hold, follows⟩ := forall₂_mem each h
    exact Nat.le_trans (orderly.begun old hold g (follows.renderGeneration ▸ hg))
      follows.generation

/-- A chunk that stays what it is stays at its place. -/
theorem Orderly.getElem?_of_follows {cache : Cache τ} {chunks : List (Chunk τ)}
    (orderly : cache.Orderly) (each : List.Forall₂ Chunk.Follows cache.chunks chunks)
    {old new : Chunk τ} (hold : old ∈ cache.chunks) (hnew : new ∈ chunks)
    (same : new.serial = old.serial) : chunks[old.index]? = some new := by
  obtain ⟨i, there⟩ := List.mem_iff_getElem?.mp hnew
  obtain ⟨other, place, follows⟩ := forall₂_getElem? each there
  have : other = old :=
    orderly.eq_of_serial (List.mem_of_getElem? place) hold (follows.serial.symm.trans same)
  rw [← this, orderly.placed i other place, there]

/-! ### One chunk changed -/

section Put

variable {cache : Cache τ} {old new : Chunk τ}

/-- The chunk that is put in its place is there. -/
theorem mem_put (h : old ∈ cache.chunks) (serial : new.serial = old.serial) {chunk : Chunk τ} :
    chunk ∈ (cache.put new).chunks ↔
      chunk = new ∨ chunk ∈ cache.chunks ∧ chunk.serial ≠ new.serial := by
  constructor
  · intro hchunk
    obtain ⟨other, hother, rfl⟩ := List.mem_map.mp hchunk
    split
    · exact .inl rfl
    · next differ => exact .inr ⟨hother, differ⟩
  · rintro (rfl | ⟨hchunk, differ⟩)
    · exact List.mem_map.mpr ⟨old, h, if_pos serial.symm⟩
    · exact List.mem_map.mpr ⟨chunk, hchunk, if_neg differ⟩

theorem put_put {other : Chunk τ} (serial : new.serial = other.serial) :
    (cache.put other).put new = cache.put new := by
  simp only [put, List.map_map]
  congr 2
  funext chunk
  simp only [Function.comp_apply]
  split <;> simp_all

/-- A chunk in the place of one with its number keeps a cache in order. -/
theorem Orderly.put (orderly : cache.Orderly) (h : old ∈ cache.chunks)
    (serial : new.serial = old.serial) (index : new.index = old.index)
    (begun : ∀ g, new.renderGeneration = some g → g ≤ new.generation) :
    (cache.put new).Orderly where
  placed i chunk hi := by
    simp only [Cache.put, List.getElem?_map, Option.map_eq_some_iff] at hi
    obtain ⟨other, hother, rfl⟩ := hi
    split
    · next same =>
      rw [index, ← orderly.eq_of_serial (List.mem_of_getElem? hother) h (same.trans serial)]
      exact orderly.placed i other hother
    · exact orderly.placed i other hother
  distinct := by
    have serials : (cache.put new).chunks.map (·.serial) = cache.chunks.map (·.serial) := by
      simp only [Cache.put, List.map_map]
      refine List.map_congr_left fun chunk _ => ?_
      simp only [Function.comp_apply]
      split <;> simp_all
    rw [serials]
    exact orderly.distinct
  numbered chunk hchunk := by
    rcases (mem_put h serial).mp hchunk with rfl | ⟨hchunk, -⟩
    · exact serial ▸ orderly.numbered old h
    · exact orderly.numbered chunk hchunk
  begun chunk hchunk g hg := by
    rcases (mem_put h serial).mp hchunk with rfl | ⟨hchunk, -⟩
    · exact begun g hg
    · exact orderly.begun chunk hchunk g hg

/-- The end of a render keeps a cache in order. -/
theorem Orderly.concludes {after : Cache τ} {index : Int} {leads : Chunk τ → Chunk τ → Prop}
    (orderly : cache.Orderly) (ends : cache.Concludes after index leads) : after.Orderly := by
  rcases ends with rfl | ⟨old, new, hget, concluded, -, rfl⟩
  · exact orderly
  · have hold := mem_of_get hget
    refine orderly.put hold concluded.serial concluded.index fun g hg => ?_
    rcases concluded.renderGeneration with none | same
    · simp [none] at hg
    · rw [concluded.generation]
      exact orderly.begun old hold g (same ▸ hg)

/-- The chunk that is put in its place stands there. -/
theorem get_put {index : Int} (h : cache.get index = .ok old) (serial : new.serial = old.serial) :
    (cache.put new).get index = .ok new := by
  obtain ⟨i, rfl, hi⟩ := get_eq_ok.mp h
  refine get_eq_ok.mpr ⟨i, rfl, ?_⟩
  rw [put, List.getElem?_map, hi, Option.map_some, if_pos serial.symm]

/-- All other chunks stand where they stood. -/
theorem Orderly.get_put_of_ne (orderly : cache.Orderly) (h : old ∈ cache.chunks)
    (serial : new.serial = old.serial) {index : Int} (away : (old.index : Int) ≠ index) :
    (cache.put new).get index = cache.get index := by
  unfold get
  by_cases below : index < 0
  · rw [if_pos below, if_pos below]
  · rw [if_neg below, if_neg below, Cache.put, List.getElem?_map]
    cases hother : cache.chunks[index.toNat]? with
    | none => rfl
    | some other =>
      have differ : other.serial ≠ new.serial := by
        intro same
        have := orderly.eq_of_serial (List.mem_of_getElem? hother) h (same.trans serial)
        have := orderly.placed index.toNat other hother
        subst other
        omega
      rw [Option.map_some, if_neg differ]

end Put

namespace Recut

variable {before after : Cache τ}

protected theorem refl (cache : Cache τ) : cache.Recut cache :=
  ⟨id, Nat.le_refl _, fun chunk h => .inl ⟨chunk, h, .refl chunk⟩, rfl⟩

/-- A cache without chunks. -/
theorem empty (chunks : after.chunks = [])
    (serial : before.nextSerial ≤ after.nextSerial) (settings : after.settings = before.settings) :
    before.Recut after :=
  ⟨fun _ => ⟨by simp [chunks], by simp [chunks], by simp [chunks], by simp [chunks]⟩, serial,
    by simp [chunks], settings⟩

end Recut

namespace Demotes

variable {before after : Cache τ}

protected theorem refl (cache : Cache τ) : cache.Demotes cache := ⟨.refl cache, rfl⟩

/-- Chunks that are demoted at most, each at its place. -/
theorem of_forall₂ (demoted : List.Forall₂ Chunk.Demoted before.chunks after.chunks)
    (serial : after.nextSerial = before.nextSerial) (settings : after.settings = before.settings) :
    before.Demotes after where
  orderly orderly :=
    orderly.follows (demoted.imp fun _ _ h => h.toFollows) (Nat.le_of_eq serial.symm)
  nextSerial := Nat.le_of_eq serial.symm
  chunks _ h := .inl (forall₂_mem demoted h)
  settings := settings
  same := serial

theorem not_isNew (demotes : before.Demotes after) (orderly : before.Orderly) {chunk : Chunk τ}
    (h : chunk ∈ after.chunks) : ¬ IsNew before.nextSerial chunk := fun new => by
  have := new.serial_le
  have := (demotes.orderly orderly).numbered chunk h
  have := demotes.same
  omega

end Demotes

/-! ### Cuts -/

section Arrange

variable [Scalar τ]

/-- What stands at a place of a new cut stood there before, or is new. -/
theorem arrange_getElem? {serial index i : Nat} {old : List (Chunk τ)}
    {windows : List (Window τ)} {chunk : Chunk τ}
    (h : (arrange serial index old windows)[i]? = some chunk) :
    old[i]? = some chunk ∨ chunk.index = index + i ∧ chunk.serial < serial + windows.length ∧
      chunk.status = .missing ∧ IsNew serial chunk := by
  fun_induction arrange serial index old windows generalizing i with
  | case1 => exact absurd h (by simp)
  | case2 serial index window rest ih =>
    cases i with
    | zero =>
      obtain rfl := Option.some.inj h
      exact .inr ⟨rfl, by simp, rfl, Nat.le_refl _, .inl rfl, rfl⟩
    | succ i =>
      rcases ih (by simpa using h) with kept | ⟨place, number, missing, new⟩
      · exact absurd kept (by simp)
      · exact .inr ⟨by omega, by simp; omega, missing, new.mono (Nat.le_succ serial)⟩
  | case3 serial index chunk' old window rest same ih =>
    cases i with
    | zero => exact .inl h
    | succ i =>
      rcases ih (by simpa using h) with kept | ⟨place, number, missing, new⟩
      · exact .inl (by simpa using kept)
      · exact .inr ⟨by omega, by simp; omega, missing, new⟩
  | case4 serial index chunk' old window rest differ ih =>
    cases i with
    | zero =>
      obtain rfl := Option.some.inj h
      exact .inr ⟨rfl, by simp, rfl, Nat.le_refl _, .inl rfl, rfl⟩
    | succ i =>
      rcases ih (by simpa using h) with kept | ⟨place, number, missing, new⟩
      · exact .inl (by simpa using kept)
      · exact .inr ⟨by omega, by simp; omega, missing, new.mono (Nat.le_succ serial)⟩

/-- A chunk of a new cut was there before, or is new. -/
theorem mem_arrange {serial index : Nat} {old : List (Chunk τ)} {windows : List (Window τ)}
    {chunk : Chunk τ} (h : chunk ∈ arrange serial index old windows) :
    chunk ∈ old ∨ chunk.serial < serial + windows.length ∧ chunk.status = .missing ∧
      IsNew serial chunk := by
  obtain ⟨i, hi⟩ := List.mem_iff_getElem?.mp h
  rcases arrange_getElem? hi with kept | ⟨-, new⟩
  · exact .inl (List.mem_of_getElem? kept)
  · exact .inr new

/-- New chunks get numbers that no other chunk has. -/
theorem arrange_distinct {serial index : Nat} {old : List (Chunk τ)}
    {windows : List (Window τ)} (distinct : (old.map (·.serial)).Nodup)
    (numbered : ∀ chunk ∈ old, chunk.serial < serial) :
    ((arrange serial index old windows).map (·.serial)).Nodup := by
  fun_induction arrange serial index old windows with
  | case1 => exact .nil
  | case2 serial index window rest ih =>
    refine List.nodup_cons.mpr ⟨fun h => ?_, ih .nil (by simp)⟩
    obtain ⟨chunk, hchunk, same⟩ := List.mem_map.mp h
    rcases mem_arrange hchunk with kept | ⟨-, -, new⟩
    · exact absurd kept (by simp)
    · exact absurd (same ▸ new.serial_le) (by simp)
  | case3 serial index chunk' old window rest kept' ih =>
    obtain ⟨fresh, distinct⟩ := List.nodup_cons.mp distinct
    refine List.nodup_cons.mpr ⟨fun h => ?_,
      ih distinct fun chunk hchunk => numbered chunk (List.mem_cons_of_mem _ hchunk)⟩
    obtain ⟨chunk, hchunk, same⟩ := List.mem_map.mp h
    rcases mem_arrange hchunk with kept | ⟨-, -, new⟩
    · exact fresh (same ▸ List.mem_map_of_mem kept)
    · have := numbered chunk' List.mem_cons_self
      have := new.serial_le
      dsimp only at same
      omega
  | case4 serial index chunk' old window rest differ ih =>
    refine List.nodup_cons.mpr ⟨fun h => ?_, ih (List.nodup_cons.mp distinct).2 fun chunk hchunk =>
      Nat.lt_succ_of_lt (numbered chunk (List.mem_cons_of_mem _ hchunk))⟩
    obtain ⟨chunk, hchunk, same⟩ := List.mem_map.mp h
    rcases mem_arrange hchunk with kept | ⟨-, -, new⟩
    · have := numbered chunk (List.mem_cons_of_mem _ kept)
      dsimp only at same
      omega
    · exact absurd (same ▸ new.serial_le) (by simp)

/-- A new cut of the chunks that a cache has. -/
theorem Recut.arrange {before after : Cache τ} {windows : List (Window τ)}
    (chunks : after.chunks = Cache.arrange before.nextSerial 0 before.chunks windows)
    (serial : after.nextSerial = before.nextSerial + windows.length)
    (settings : after.settings = before.settings) : before.Recut after := by
  refine ⟨fun orderly => ⟨fun i chunk hi => ?_, ?_, fun chunk h => ?_, fun chunk h g hg => ?_⟩,
    by omega, fun chunk h => ?_, settings⟩
  · rw [chunks] at hi
    rcases arrange_getElem? hi with kept | ⟨place, -⟩
    · exact orderly.placed i chunk kept
    · omega
  · rw [chunks]
    exact arrange_distinct orderly.distinct orderly.numbered
  · rw [chunks] at h
    rcases mem_arrange h with kept | ⟨number, -⟩
    · have := orderly.numbered chunk kept
      omega
    · omega
  · rw [chunks] at h
    rcases mem_arrange h with kept | ⟨-, -, new⟩
    · exact orderly.begun chunk kept g hg
    · exact absurd (new.renderGeneration ▸ hg) (by simp)
  · rw [chunks] at h
    rcases mem_arrange h with kept | ⟨-, -, new⟩
    · exact .inl ⟨chunk, kept, .refl chunk⟩
    · exact .inr new

/-- New chunks, some of which may have been found on disk. -/
theorem Recut.restored {before after : Cache τ} {windows : List (Window τ)}
    (restored : List.Forall₂ Chunk.Restored (Cache.arrange before.nextSerial 0 [] windows)
      after.chunks)
    (serial : after.nextSerial = before.nextSerial + windows.length)
    (settings : after.settings = before.settings) : before.Recut after where
  orderly _ := by
    have empty : { before with chunks := [] }.Orderly := ⟨by simp, .nil, by simp, by simp⟩
    have fresh : { after with
        chunks := Cache.arrange before.nextSerial 0 [] windows }.Orderly := by
      have recut : { before with chunks := [] }.Recut { after with
          chunks := Cache.arrange before.nextSerial 0 [] windows } :=
        .arrange rfl serial settings
      exact recut.orderly empty
    exact fresh.follows (restored.imp fun _ _ h => h.toFollows) (Nat.le_refl _)
  nextSerial := by omega
  chunks chunk h := by
    obtain ⟨fresh, hfresh, restored⟩ := forall₂_mem restored h
    rcases mem_arrange hfresh with kept | ⟨-, missing, new⟩
    · exact absurd kept (by simp)
    · refine .inr ⟨restored.serial ▸ new.serial_le, ?_, restored.renderGeneration ▸
        new.renderGeneration⟩
      rcases restored.status with same | valid
      · exact .inl (same.trans missing)
      · exact .inr valid
  settings := settings

end Arrange

end Cache

end Montage
