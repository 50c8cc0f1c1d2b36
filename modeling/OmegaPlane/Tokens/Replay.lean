import OmegaPlane.Data.Bytes
import OmegaPlane.Data.Generations

/-!
# The replay cache

Hashed keys of single-use credentials.  Entries may be counted against their
owner, so that one client cannot fill the cache.
-/

namespace OmegaPlane.Tokens

/-- Once the cache holds this many entries, credentials are refused. -/
def dpopMaxReplayEntries : Nat := 100000

structure ReplayCache extends Generations Bytes where
  retention : Int
  /-- Entries one owner may hold; zero for no limit. -/
  perOwner : Nat := 0
  curOwner : Bytes → Nat := fun _ => 0
  prevOwner : Bytes → Nat := fun _ => 0

inductive ReplayError where
  | full
  | ownerQuota
  deriving DecidableEq

namespace ReplayCache

def new (retention : Int) : ReplayCache where
  cur := []
  prev := []
  rotated := Clock.zeroInstant
  retention := retention

/-- The rotation at the start of a use; the owners' counts go with it. -/
def rotate (cache : ReplayCache) (now : Int) : ReplayCache :=
  if cache.retention ≤ Clock.sub now cache.rotated then
    { cache with
      toGenerations := { cur := [], prev := cache.cur, rotated := now }
      curOwner := fun _ => 0
      prevOwner := cache.curOwner }
  else cache

def record (cache : ReplayCache) (owner hash : Bytes) : ReplayCache :=
  { cache with
    toGenerations := cache.toGenerations.record hash
    curOwner :=
      if 0 < cache.perOwner then Function.update cache.curOwner owner (cache.curOwner owner + 1)
      else cache.curOwner }

variable (sha256 : Bytes → Bytes)

/-- The entry of a key. -/
def entry (owner key : Bytes) : Bytes :=
  sha256 (owner ++ ascii "|" ++ key)

/-- Record a key for its owner and report whether it had not been seen. -/
def firstUseBy (cache : ReplayCache) (owner key : Bytes) (now : Int) :
    Except ReplayError Bool × ReplayCache :=
  let cache := cache.rotate now
  if cache.Seen (entry sha256 owner key) then (.ok false, cache)
  else if 0 < cache.perOwner ∧ cache.perOwner ≤ cache.curOwner owner + cache.prevOwner owner then
    (.error .ownerQuota, cache)
  else if dpopMaxReplayEntries ≤ cache.cur.length + cache.prev.length then (.error .full, cache)
  else (.ok true, cache.record owner (entry sha256 owner key))

def firstUse (cache : ReplayCache) (key : Bytes) (now : Int) :
    Except ReplayError Bool × ReplayCache :=
  cache.firstUseBy sha256 [] key now

variable {sha256 : Bytes → Bytes} {cache : ReplayCache} {owner key : Bytes} {now used earlier : Int}

@[simp]
theorem toGenerations_rotate (cache : ReplayCache) (now : Int) :
    (cache.rotate now).toGenerations = cache.toGenerations.advance cache.retention now := by
  unfold rotate Generations.advance
  split <;> rfl

@[simp]
theorem retention_rotate (cache : ReplayCache) (now : Int) :
    (cache.rotate now).retention = cache.retention := by
  unfold rotate
  split <;> rfl

/-- A use rotates the cache and records the entry only when it reports a first
use; then the entry was not there. -/
theorem firstUseBy_cases (sha256 : Bytes → Bytes) (cache : ReplayCache) (owner key : Bytes)
    (now : Int) :
    (cache.firstUseBy sha256 owner key now).1 ≠ .ok true ∧
        (cache.firstUseBy sha256 owner key now).2 = cache.rotate now ∨
      ¬ (cache.rotate now).Seen (entry sha256 owner key) ∧
        cache.firstUseBy sha256 owner key now =
          (.ok true, (cache.rotate now).record owner (entry sha256 owner key)) := by
  unfold firstUseBy
  dsimp only
  split
  case isTrue => exact Or.inl ⟨by simp, rfl⟩
  case isFalse unseen =>
    split
    · exact Or.inl ⟨by simp, rfl⟩
    split
    · exact Or.inl ⟨by simp, rfl⟩
    · exact Or.inr ⟨unseen, rfl⟩

/-- The durations a cache can keep keys for. -/
def Sound (cache : ReplayCache) : Prop :=
  0 < cache.retention ∧ cache.retention ≤ Clock.maxDuration

theorem retention_firstUseBy (sha256 : Bytes → Bytes) (cache : ReplayCache) (owner key : Bytes)
    (now : Int) : (cache.firstUseBy sha256 owner key now).2.retention = cache.retention := by
  rcases firstUseBy_cases sha256 cache owner key now with ⟨-, same⟩ | ⟨-, recorded⟩
  · rw [same, retention_rotate]
  · rw [recorded]
    exact retention_rotate cache now

/-- An entry is kept whatever keys are used after it. -/
theorem retains_firstUseBy {hash : Bytes} (sound : cache.Sound)
    (retains : cache.Retains cache.retention hash used earlier) (le : earlier ≤ now) :
    (cache.firstUseBy sha256 owner key now).2.Retains cache.retention hash used now := by
  have low : Clock.minDuration < cache.retention :=
    lt_trans (by decide) sound.1
  have rotated := retains.advance le low sound.2
  rcases firstUseBy_cases sha256 cache owner key now with ⟨-, same⟩ | ⟨-, recorded⟩
  · rw [same, toGenerations_rotate]
    exact rotated
  · rw [recorded]
    have kept := rotated.record (entry sha256 owner key)
    rw [← toGenerations_rotate] at kept
    exact kept

/-- No first use is reported for an entry while it is kept. -/
theorem late_of_firstUseBy (sound : cache.Sound)
    (retains : cache.Retains cache.retention (entry sha256 owner key) used earlier)
    (le : earlier ≤ now) (first : (cache.firstUseBy sha256 owner key now).1 = .ok true) :
    used + cache.retention < now := by
  rcases firstUseBy_cases sha256 cache owner key now with ⟨other, -⟩ | ⟨unseen, -⟩
  · exact absurd first other
  by_contra within
  have low : Clock.minDuration < cache.retention := lt_trans (by decide) sound.1
  have seen := (retains.advance le low sound.2).seen (by omega)
  rw [toGenerations_rotate] at unseen
  exact unseen seen

end ReplayCache

end OmegaPlane.Tokens
