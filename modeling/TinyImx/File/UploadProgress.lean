import Mathlib.Algebra.Ring.Nat
import Mathlib.Data.List.Count
import TinyImx.Lib.Ranges
import TinyImx.Local.Types

/-!
# Progress of an upload

`ToSnapshot` of `FileRepositoryAdapter` turns the rows of an upload into views, `BuildProgress` of
`FileApplicationService` walks the chunks once and collects the ranges of indices that are not
stored, and `ManifestReadyForFinalize` compares the chunks with their positions.
-/

namespace TinyImx.File

open Local (Bytes ascii)

/-! ## Rows and views -/

inductive FileStatus where
  | uploading | verifying | available | failed | canceled | expired | deleted
  deriving DecidableEq

inductive UploadSessionStatus where
  | active | finalizing | completed | canceled | expired
  deriving DecidableEq

inductive UploadChunkStatus where
  | reserved | stored
  deriving DecidableEq

/-- The columns of a file, with its status as a number in `FileRecord` and as an enumerator in
`FileView`. -/
structure FileColumns (σ : Type) where
  fileId : UInt64
  ownerUserId : UInt64
  totalSize : UInt64
  expectedChecksum : Bytes := []
  verifiedChecksum : Bytes := []
  storageKey : Bytes := []
  status : σ
  deriving DecidableEq

structure UploadSessionColumns (σ : Type) where
  uploadId : UInt64
  fileId : UInt64
  ownerUserId : UInt64
  totalSize : UInt64
  chunkSize : UInt64
  status : σ
  deriving DecidableEq

structure UploadChunkColumns (σ : Type) where
  uploadId : UInt64
  chunkIndex : UInt64
  fileId : UInt64
  ownerUserId : UInt64
  byteOffset : UInt64
  chunkSize : UInt64
  checksumAlgorithm : Bytes
  checksum : Bytes
  storagePartKey : Bytes
  status : σ
  deriving DecidableEq

abbrev FileRecord := FileColumns UInt32
abbrev FileView := FileColumns FileStatus
abbrev UploadSessionRecord := UploadSessionColumns UInt32
abbrev UploadSessionView := UploadSessionColumns UploadSessionStatus
abbrev FileUploadChunkRecord := UploadChunkColumns UInt32
abbrev UploadChunkView := UploadChunkColumns UploadChunkStatus

structure FileUploadBundleRecord where
  file : FileRecord
  session : UploadSessionRecord

structure UploadBundleView where
  file : FileView
  session : UploadSessionView
  deriving DecidableEq

structure UploadSnapshotView where
  bundle : UploadBundleView
  chunks : List UploadChunkView
  deriving DecidableEq

def mapFileStatus (status : UInt32) : Option FileStatus :=
  match status.toNat with
  | 1 => some .uploading
  | 2 => some .verifying
  | 3 => some .available
  | 4 => some .failed
  | 5 => some .canceled
  | 6 => some .expired
  | 7 => some .deleted
  | _ => none

def mapUploadStatus (status : UInt32) : Option UploadSessionStatus :=
  match status.toNat with
  | 1 => some .active
  | 2 => some .finalizing
  | 3 => some .completed
  | 4 => some .canceled
  | 5 => some .expired
  | _ => none

def mapChunkStatus (status : UInt32) : Option UploadChunkStatus :=
  match status.toNat with
  | 1 => some .reserved
  | 2 => some .stored
  | _ => none

def toChunkView (record : FileUploadChunkRecord) : Option UploadChunkView :=
  match mapChunkStatus record.status with
  | none => none
  | some status =>
    if record.uploadId = 0 ∨ record.fileId = 0 ∨ record.ownerUserId = 0 ∨ record.chunkSize = 0 ∨
        record.checksumAlgorithm ≠ ascii "sha256" ∨ record.checksum.length ≠ 64 ∨
        record.storagePartKey = [] then none
    else some { record with status := status }

def toView (record : FileUploadBundleRecord) : Option UploadBundleView :=
  match mapFileStatus record.file.status, mapUploadStatus record.session.status with
  | some fileStatus, some uploadStatus =>
    if record.file.fileId = 0 ∨ record.session.uploadId = 0 ∨
        record.file.fileId ≠ record.session.fileId ∨
        record.file.ownerUserId ≠ record.session.ownerUserId ∨
        record.file.totalSize ≠ record.session.totalSize then none
    else some
      { file := { record.file with status := fileStatus }
        session := { record.session with status := uploadStatus } }
  | _, _ => none

def toSnapshot (bundleRecord : FileUploadBundleRecord)
    (chunkRecords : List FileUploadChunkRecord) : Option UploadSnapshotView := do
  let bundle ← toView bundleRecord
  let chunks ← chunkRecords.mapM fun record => do
    let chunk ← toChunkView record
    if chunk.uploadId ≠ bundle.session.uploadId ∨ chunk.fileId ≠ bundle.file.fileId ∨
        chunk.ownerUserId ≠ bundle.file.ownerUserId then none
    else some chunk
  return { bundle, chunks }

/-! ## The two walks -/

def expectedChunkCount (session : UploadSessionView) : UInt64 :=
  1 + (session.totalSize - 1) / session.chunkSize

def expectedOffset (session : UploadSessionView) (index : UInt64) : UInt64 :=
  index * session.chunkSize

def expectedSize (session : UploadSessionView) (index : UInt64) : UInt64 :=
  min session.chunkSize (session.totalSize - expectedOffset session index)

structure ChunkIndexRange where
  startIndex : UInt64
  endIndex : UInt64
  deriving DecidableEq

def appendMissingRange (ranges : List ChunkIndexRange) (startIndex endIndex : UInt64) :
    List ChunkIndexRange :=
  if endIndex < startIndex then ranges
  else match ranges.getLast? with
    | some back =>
      if back.endIndex ≠ -1 ∧ back.endIndex + 1 = startIndex then
        ranges.dropLast ++ [{ back with endIndex }]
      else ranges ++ [{ startIndex, endIndex }]
    | none => [{ startIndex, endIndex }]

structure UploadProgressView where
  bundle : UploadBundleView
  expectedChunkCount : UInt64
  storedChunkCount : UInt64
  reservedChunkCount : UInt64
  missingRanges : List ChunkIndexRange
  readyToFinalize : Bool
  deriving DecidableEq

/-- The variables of the loop of `BuildProgress`. -/
structure Walk where
  cursor : UInt64 := 0
  first : Bool := true
  previousIndex : UInt64 := 0
  missingRanges : List ChunkIndexRange := []
  storedChunkCount : UInt64 := 0
  reservedChunkCount : UInt64 := 0

def acceptsChunk (bundle : UploadBundleView) (walk : Walk) (chunk : UploadChunkView) : Bool :=
  ¬ ((walk.first = false ∧ chunk.chunkIndex ≤ walk.previousIndex) ∨
      expectedChunkCount bundle.session ≤ chunk.chunkIndex ∨
      chunk.uploadId ≠ bundle.session.uploadId ∨ chunk.fileId ≠ bundle.file.fileId ∨
      chunk.ownerUserId ≠ bundle.session.ownerUserId ∨
      chunk.checksumAlgorithm ≠ ascii "sha256" ∨ chunk.checksum.length ≠ 64) ∧
    ¬ (chunk.byteOffset ≠ expectedOffset bundle.session chunk.chunkIndex ∨
      chunk.chunkSize ≠ expectedSize bundle.session chunk.chunkIndex)

def walkChunk (bundle : UploadBundleView) (walk : Walk) (chunk : UploadChunkView) : Option Walk :=
  if acceptsChunk bundle walk chunk then
    let missing :=
      if walk.cursor < chunk.chunkIndex then
        appendMissingRange walk.missingRanges walk.cursor (chunk.chunkIndex - 1)
      else walk.missingRanges
    let walk := match chunk.status with
      | .stored =>
        { walk with missingRanges := missing, storedChunkCount := walk.storedChunkCount + 1 }
      | .reserved =>
        { walk with
          missingRanges := appendMissingRange missing chunk.chunkIndex chunk.chunkIndex
          reservedChunkCount := walk.reservedChunkCount + 1 }
    some { walk with
      cursor := chunk.chunkIndex + 1, previousIndex := chunk.chunkIndex, first := false }
  else none

def acceptsBundle (bundle : UploadBundleView) : Bool :=
  ¬ (bundle.file.fileId = 0 ∨ bundle.session.uploadId = 0 ∨
    bundle.file.fileId ≠ bundle.session.fileId ∨ bundle.file.ownerUserId = 0 ∨
    bundle.file.ownerUserId ≠ bundle.session.ownerUserId ∨ bundle.file.totalSize = 0 ∨
    bundle.file.totalSize ≠ bundle.session.totalSize ∨ bundle.session.chunkSize = 0)

def mutableOrFinalizing (bundle : UploadBundleView) : Bool :=
  (bundle.session.status = .active ∧ bundle.file.status = .uploading) ∨
    (bundle.session.status = .finalizing ∧ bundle.file.status = .verifying)

def finishProgress (bundle : UploadBundleView) (walk : Walk) : UploadProgressView :=
  let expected := expectedChunkCount bundle.session
  let missing :=
    if walk.cursor < expected then
      appendMissingRange walk.missingRanges walk.cursor (expected - 1)
    else walk.missingRanges
  { bundle
    expectedChunkCount := expected
    storedChunkCount := walk.storedChunkCount
    reservedChunkCount := walk.reservedChunkCount
    missingRanges := missing
    readyToFinalize :=
      mutableOrFinalizing bundle && missing.isEmpty && walk.storedChunkCount == expected }

def buildProgress (snapshot : UploadSnapshotView) : Option UploadProgressView :=
  if acceptsBundle snapshot.bundle then
    (snapshot.chunks.foldlM (walkChunk snapshot.bundle) {}).map (finishProgress snapshot.bundle)
  else none

def manifestReadyForFinalize (snapshot : UploadSnapshotView) : Bool :=
  let session := snapshot.bundle.session
  if session.totalSize = 0 ∨ session.chunkSize = 0 ∨
      session.totalSize ≠ snapshot.bundle.file.totalSize then false
  else if snapshot.chunks.length ≠ (expectedChunkCount session).toNat then false
  else (List.range snapshot.chunks.length).all fun index =>
    match snapshot.chunks[index]? with
    | none => false
    | some chunk =>
      chunk.chunkIndex = UInt64.ofNat index ∧
        chunk.byteOffset = expectedOffset session (UInt64.ofNat index) ∧
        chunk.chunkSize = expectedSize session (UInt64.ofNat index) ∧ chunk.status = .stored

/-! ## Geometry -/

theorem toNat_min (a b : UInt64) : (min a b).toNat = min a.toNat b.toNat := by
  change (if a ≤ b then a else b).toNat = _
  split
  · next h => exact (Nat.min_eq_left (UInt64.le_iff_toNat_le.1 h)).symm
  · next h =>
    have hlt := UInt64.lt_iff_toNat_lt.1 (UInt64.not_le.1 h)
    exact (Nat.min_eq_right hlt.le).symm

variable {session : UploadSessionView}

theorem toNat_expectedChunkCount (ht : session.totalSize ≠ 0) : (expectedChunkCount session).toNat =
      1 + (session.totalSize.toNat - 1) / session.chunkSize.toNat := by
  have ht' : 1 ≤ session.totalSize.toNat :=
    Nat.one_le_iff_ne_zero.2 fun h => ht (UInt64.toNat_inj.1 h)
  have hone : (1 : UInt64) ≤ session.totalSize := UInt64.le_iff_toNat_le.2 ht'
  have hlt := session.totalSize.toNat_lt
  have hdiv := Nat.div_le_self (session.totalSize.toNat - 1) session.chunkSize.toNat
  rw [expectedChunkCount, UInt64.toNat_add, UInt64.toNat_div, UInt64.toNat_sub_of_le _ _ hone]
  exact Nat.mod_eq_of_lt (by grind)

theorem mul_chunkSize_lt (ht : session.totalSize ≠ 0) {i : ℕ}
    (hi : i < (expectedChunkCount session).toNat) :
    i * session.chunkSize.toNat < session.totalSize.toNat := by
  have ht' : 1 ≤ session.totalSize.toNat :=
    Nat.one_le_iff_ne_zero.2 fun h => ht (UInt64.toNat_inj.1 h)
  rw [toNat_expectedChunkCount ht] at hi
  have := Nat.mul_le_of_le_div _ _ _
    (show i ≤ (session.totalSize.toNat - 1) / session.chunkSize.toNat by omega)
  omega

theorem toNat_expectedOffset (ht : session.totalSize ≠ 0)
    {index : UInt64} (hi : index < expectedChunkCount session) :
    (expectedOffset session index).toNat = index.toNat * session.chunkSize.toNat := by
  have := mul_chunkSize_lt ht (UInt64.lt_iff_toNat_lt.1 hi)
  have hlt := session.totalSize.toNat_lt
  rw [expectedOffset, UInt64.toNat_mul, Nat.mod_eq_of_lt (by omega)]

theorem toNat_expectedSize (ht : session.totalSize ≠ 0)
    {index : UInt64} (hi : index < expectedChunkCount session) :
    (expectedSize session index).toNat =
      min session.chunkSize.toNat
        (session.totalSize.toNat - index.toNat * session.chunkSize.toNat) := by
  have hoff := toNat_expectedOffset ht hi
  have hlt := mul_chunkSize_lt ht (UInt64.lt_iff_toNat_lt.1 hi)
  have hle : expectedOffset session index ≤ session.totalSize :=
    UInt64.le_iff_toNat_le.2 (by omega)
  have hsub : (session.totalSize - expectedOffset session index).toNat =
      session.totalSize.toNat - index.toNat * session.chunkSize.toNat := by
    rw [UInt64.toNat_sub_of_le _ _ hle, hoff]
  rw [expectedSize, toNat_min, hsub]

/-! ## Missing ranges -/

def pairs (ranges : List ChunkIndexRange) : List (ℕ × ℕ) :=
  ranges.map fun range => (range.startIndex.toNat, range.endIndex.toNat)

theorem toNat_add_one {a : UInt64} (ha : a.toNat + 1 < 2 ^ 64) : (a + 1).toNat = a.toNat + 1 := by
  rw [UInt64.toNat_add]
  exact Nat.mod_eq_of_lt ha

theorem follows_iff {a b : UInt64} : (a ≠ -1 ∧ a + 1 = b) ↔ a.toNat + 1 = b.toNat := by
  have hmax : (-1 : UInt64).toNat + 1 = 2 ^ 64 := rfl
  have ha := a.toNat_lt
  have hb := b.toNat_lt
  constructor
  · rintro ⟨hne, rfl⟩
    have : a.toNat ≠ (-1 : UInt64).toNat := fun h => hne (UInt64.toNat_inj.1 h)
    exact (toNat_add_one (by omega)).symm
  · intro h
    have hlt : a.toNat + 1 < 2 ^ 64 := by omega
    refine ⟨fun h' => ?_, UInt64.toNat_inj.1 ((toNat_add_one hlt).trans h)⟩
    rw [h', hmax] at hlt
    exact absurd hlt (lt_irrefl _)

theorem pairs_appendMissingRange {ranges : List ChunkIndexRange} {a b : UInt64} (hab : a ≤ b) :
    pairs (appendMissingRange ranges a b) = Ranges.push (pairs ranges) a.toNat b.toNat := by
  rw [appendMissingRange, if_neg (UInt64.not_lt.2 hab)]
  rcases List.eq_nil_or_concat ranges with rfl | ⟨ranges, back, rfl⟩
  · rfl
  rw [List.concat_eq_append, List.getLast?_concat, List.dropLast_concat]
  have hpairs : pairs (ranges ++ [back]) =
      pairs ranges ++ [(back.startIndex.toNat, back.endIndex.toNat)] := List.map_append
  rw [hpairs, Ranges.push_concat]
  simp only [follows_iff]
  split
  · exact List.map_append
  · rw [← hpairs]
    exact List.map_append

/-! ## Gaps -/

def StoredAt (chunks : List UploadChunkView) (i : ℕ) : Prop :=
  ∃ chunk ∈ chunks, chunk.chunkIndex.toNat = i ∧ chunk.status = .stored

theorem storedAt_concat {chunks : List UploadChunkView} {chunk : UploadChunkView} {i : ℕ} :
    StoredAt (chunks ++ [chunk]) i ↔
      StoredAt chunks i ∨ (chunk.chunkIndex.toNat = i ∧ chunk.status = .stored) := by
  simp only [StoredAt, List.mem_append, List.mem_singleton, or_and_right, exists_or,
    exists_eq_left]

/-- The ranges are the indices below `n` at which no chunk is stored. -/
structure Gaps (chunks : List UploadChunkView) (ranges : List ChunkIndexRange) (n : ℕ) : Prop where
  separated : Ranges.Separated (pairs ranges)
  ends : ∀ r ∈ pairs ranges, r.2 < n
  covers : ∀ i, Ranges.Covers (pairs ranges) i ↔ i < n ∧ ¬ StoredAt chunks i
  below : ∀ chunk ∈ chunks, chunk.chunkIndex.toNat < n

variable {chunks : List UploadChunkView} {ranges : List ChunkIndexRange}

theorem Gaps.not_storedAt {n i : ℕ} (h : Gaps chunks ranges n) (hi : n ≤ i) :
    ¬ StoredAt chunks i := by
  rintro ⟨chunk, hmem, rfl, -⟩
  exact absurd (h.below chunk hmem) (Nat.not_lt.2 hi)

theorem gaps_nil : Gaps [] [] 0 where
  separated := Ranges.separated_nil
  ends r hr := absurd hr List.not_mem_nil
  covers i := by simp [pairs, Ranges.Covers]
  below chunk hmem := absurd hmem List.not_mem_nil

theorem Gaps.append {a b : UInt64} (h : Gaps chunks ranges a.toNat) (hab : a ≤ b)
    (hb : b.toNat + 1 < 2 ^ 64) :
    Gaps chunks (appendMissingRange ranges a b) (b + 1).toNat := by
  have hle := UInt64.le_iff_toNat_le.1 hab
  rw [toNat_add_one hb]
  constructor
  · rw [pairs_appendMissingRange hab]
    exact Ranges.separated_push h.separated hle h.ends
  · rw [pairs_appendMissingRange hab]
    exact fun r hr => Nat.lt_succ_of_le (Ranges.le_of_mem_push hle h.ends r hr)
  · intro i
    rw [pairs_appendMissingRange hab, Ranges.covers_push h.separated hle, h.covers]
    constructor
    · rintro (⟨hi, hnot⟩ | ⟨hai, hib⟩)
      · exact ⟨by omega, hnot⟩
      · exact ⟨by omega, h.not_storedAt hai⟩
    · grind
  · intro chunk hmem
    have := h.below chunk hmem
    omega

theorem Gaps.fill {cursor bound : UInt64} (h : Gaps chunks ranges cursor.toNat)
    (hle : cursor ≤ bound) :
    Gaps chunks
      (if cursor < bound then appendMissingRange ranges cursor (bound - 1) else ranges)
      bound.toNat := by
  split
  · next hlt =>
    have hpos := UInt64.lt_iff_toNat_lt.1 hlt
    have hone : (1 : UInt64) ≤ bound := UInt64.le_iff_toNat_le.2 (by change 1 ≤ _; omega)
    have hpred : (bound - 1).toNat = bound.toNat - 1 := UInt64.toNat_sub_of_le _ _ hone
    have hmax := bound.toNat_lt
    have := h.append (b := bound - 1) (UInt64.le_iff_toNat_le.2 (by omega)) (by omega)
    rwa [toNat_add_one (by omega), hpred, Nat.sub_add_cancel (by omega)] at this
  · next hlt =>
    grind

theorem Gaps.store {chunk : UploadChunkView} (h : Gaps chunks ranges chunk.chunkIndex.toNat)
    (hs : chunk.status = .stored) :
    Gaps (chunks ++ [chunk]) ranges (chunk.chunkIndex.toNat + 1) where
  separated := h.separated
  ends r hr := Nat.lt_succ_of_lt (h.ends r hr)
  covers i := by
    rw [h.covers, storedAt_concat, not_or]
    grind
  below c hmem := by
    rcases List.mem_append.1 hmem with hmem | hmem
    · exact Nat.lt_succ_of_lt (h.below c hmem)
    · simp_all

theorem Gaps.reserve {chunk : UploadChunkView} {n : ℕ} (h : Gaps chunks ranges n)
    (hs : chunk.status = .reserved) (hn : chunk.chunkIndex.toNat < n) :
    Gaps (chunks ++ [chunk]) ranges n where
  separated := h.separated
  ends := h.ends
  covers i := by
    rw [h.covers, storedAt_concat, hs]
    simp
  below c hmem := by
    rcases List.mem_append.1 hmem with hmem | hmem
    · exact h.below c hmem
    · simp_all

/-! ## The walk -/

variable {bundle : UploadBundleView} {walk walk' : Walk} {chunk : UploadChunkView}

structure Fits (session : UploadSessionView) (chunk : UploadChunkView) : Prop where
  below : chunk.chunkIndex < expectedChunkCount session
  offset : chunk.byteOffset = expectedOffset session chunk.chunkIndex
  size : chunk.chunkSize = expectedSize session chunk.chunkIndex

/-- What the loop of `BuildProgress` knows after the chunks `chunks`. -/
structure Walked (bundle : UploadBundleView) (chunks : List UploadChunkView) (walk : Walk) :
    Prop where
  gaps : Gaps chunks walk.missingRanges walk.cursor.toNat
  atStart : walk.first = true → walk.cursor = 0
  previous : walk.first = false → walk.cursor.toNat = walk.previousIndex.toNat + 1
  cursor_le : walk.cursor ≤ expectedChunkCount bundle.session
  length_le : chunks.length ≤ walk.cursor.toNat
  increasing : (chunks.map (·.chunkIndex.toNat)).Pairwise (· < ·)
  fits : ∀ chunk ∈ chunks, Fits bundle.session chunk
  stored : walk.storedChunkCount.toNat = chunks.countP (·.status = .stored)
  reserved : walk.reservedChunkCount.toNat = chunks.countP (·.status = .reserved)

theorem walked_nil : Walked bundle [] {} where
  gaps := gaps_nil
  atStart _ := rfl
  previous h := absurd h (by simp)
  cursor_le := UInt64.le_iff_toNat_le.2 (Nat.zero_le _)
  length_le := Nat.zero_le _
  increasing := List.Pairwise.nil
  fits chunk hmem := absurd hmem List.not_mem_nil
  stored := rfl
  reserved := rfl

theorem Walked.accepts (h : Walked bundle chunks walk)
    (ha : acceptsChunk bundle walk chunk = true) :
    walk.cursor ≤ chunk.chunkIndex ∧ Fits bundle.session chunk := by
  simp only [acceptsChunk, not_or, not_and, not_not, Bool.decide_and, Bool.and_eq_true,
    decide_eq_true_eq] at ha
  obtain ⟨⟨horder, hbelow, -⟩, hoffset, hsize⟩ := ha
  refine ⟨?_, UInt64.not_le.1 hbelow, hoffset, hsize⟩
  cases hf : walk.first with
  | true =>
    rw [h.atStart hf]
    exact UInt64.le_iff_toNat_le.2 (Nat.zero_le _)
  | false =>
    have := UInt64.lt_iff_toNat_lt.1 (UInt64.not_le.1 (horder hf))
    exact UInt64.le_iff_toNat_le.2 (by rw [h.previous hf]; omega)

theorem Walked.step (h : Walked bundle chunks walk)
    (hstep : walkChunk bundle walk chunk = some walk') :
    Walked bundle (chunks ++ [chunk]) walk' := by
  rw [walkChunk] at hstep
  split at hstep
  case isFalse => cases hstep
  case isTrue ha =>
  obtain ⟨hle, hfits⟩ := h.accepts ha
  have hfill := h.gaps.fill hle
  have hbound := (expectedChunkCount bundle.session).toNat_lt
  have hindex := UInt64.lt_iff_toNat_lt.1 hfits.below
  have hsucc := toNat_add_one (a := chunk.chunkIndex) (by omega)
  have hcursor := UInt64.le_iff_toNat_le.1 hle
  have hlen := h.length_le
  have hmax := h.stored ▸ List.countP_le_length (l := chunks)
  have hmax' := h.reserved ▸ List.countP_le_length (l := chunks)
  have hle' : chunk.chunkIndex + 1 ≤ expectedChunkCount bundle.session :=
    UInt64.le_iff_toNat_le.2 (by omega)
  have hlen' : (chunks ++ [chunk]).length ≤ (chunk.chunkIndex + 1).toNat := by
    rw [List.length_append, List.length_singleton]
    omega
  have hincr : ((chunks ++ [chunk]).map (·.chunkIndex.toNat)).Pairwise (· < ·) := by
    rw [List.map_append]
    refine List.pairwise_append.2 ⟨h.increasing, List.pairwise_singleton _ _, fun i hi j hj => ?_⟩
    obtain ⟨c, hmem, rfl⟩ := List.mem_map.1 hi
    rw [List.mem_singleton.1 hj]
    exact lt_of_lt_of_le (h.gaps.below c hmem) hcursor
  have hfits' : ∀ c ∈ chunks ++ [chunk], Fits bundle.session c := by
    intro c hmem
    rcases List.mem_append.1 hmem with hmem | hmem
    · exact h.fits c hmem
    · exact List.mem_singleton.1 hmem ▸ hfits
  cases hs : chunk.status with
  | stored =>
    rw [hs] at hstep
    cases hstep
    refine ⟨?_, (fun hf => by cases hf), fun _ => hsucc, hle', hlen', hincr, hfits', ?_, ?_⟩
    · exact hsucc ▸ hfill.store hs
    · rw [List.countP_append, ← h.stored]
      exact (toNat_add_one (by omega)).trans (by simp [hs])
    · rw [List.countP_append, ← h.reserved]
      simp [hs]
  | reserved =>
    rw [hs] at hstep
    cases hstep
    refine ⟨?_, (fun hf => by cases hf), fun _ => hsucc, hle', hlen', hincr, hfits', ?_, ?_⟩
    · exact (hfill.append (UInt64.le_refl _) (by omega)).reserve hs (by omega)
    · rw [List.countP_append, ← h.stored]
      simp [hs]
    · rw [List.countP_append, ← h.reserved]
      exact (toNat_add_one (by omega)).trans (by simp [hs])

theorem Walked.foldlM {rest : List UploadChunkView} (h : Walked bundle chunks walk)
    (hrun : rest.foldlM (walkChunk bundle) walk = some walk') :
    Walked bundle (chunks ++ rest) walk' := by
  induction rest generalizing chunks walk with
  | nil =>
    cases hrun
    rwa [List.append_nil]
  | cons chunk rest ih =>
    rw [List.foldlM_cons] at hrun
    obtain ⟨next, hstep, hrun⟩ := Option.bind_eq_some_iff.1 hrun
    have := ih (h.step hstep) hrun
    rwa [List.append_assoc] at this

/-! ## What is returned -/

variable {snapshot : UploadSnapshotView} {progress : UploadProgressView}

/-- What `BuildProgress` returns is exact. -/
structure Exact (snapshot : UploadSnapshotView) (progress : UploadProgressView) : Prop where
  bundle : progress.bundle = snapshot.bundle
  expected : progress.expectedChunkCount.toNat =
    1 + (snapshot.bundle.session.totalSize.toNat - 1) / snapshot.bundle.session.chunkSize.toNat
  separated : Ranges.Separated (pairs progress.missingRanges)
  missing : ∀ i, Ranges.Covers (pairs progress.missingRanges) i ↔
    i < progress.expectedChunkCount.toNat ∧ ¬ StoredAt snapshot.chunks i
  stored : progress.storedChunkCount.toNat = snapshot.chunks.countP (·.status = .stored)
  reserved : progress.reservedChunkCount.toNat = snapshot.chunks.countP (·.status = .reserved)

theorem buildProgress_eq_some (h : buildProgress snapshot = some progress) :
    acceptsBundle snapshot.bundle = true ∧
      ∃ walk, Walked snapshot.bundle snapshot.chunks walk ∧
        progress = finishProgress snapshot.bundle walk := by
  rw [buildProgress] at h
  split at h
  case isFalse => cases h
  case isTrue ha =>
  obtain ⟨walk, hrun, rfl⟩ := Option.map_eq_some_iff.1 h
  exact ⟨ha, walk, walked_nil.foldlM hrun, rfl⟩

theorem acceptsBundle_iff : acceptsBundle bundle = true ↔
    bundle.file.fileId ≠ 0 ∧ bundle.session.uploadId ≠ 0 ∧
      bundle.file.fileId = bundle.session.fileId ∧ bundle.file.ownerUserId ≠ 0 ∧
      bundle.file.ownerUserId = bundle.session.ownerUserId ∧ bundle.file.totalSize ≠ 0 ∧
      bundle.file.totalSize = bundle.session.totalSize ∧ bundle.session.chunkSize ≠ 0 := by
  simp only [acceptsBundle, not_or, not_not, decide_eq_true_eq, ne_eq]

theorem totalSize_ne_zero (ha : acceptsBundle bundle = true) : bundle.session.totalSize ≠ 0 := by
  obtain ⟨-, -, -, -, -, hne, heq, -⟩ := acceptsBundle_iff.1 ha
  exact heq ▸ hne

theorem exact_of_buildProgress (h : buildProgress snapshot = some progress) :
    Exact snapshot progress := by
  obtain ⟨ha, walk, hwalk, rfl⟩ := buildProgress_eq_some h
  have hgaps := hwalk.gaps.fill hwalk.cursor_le
  exact
    { bundle := rfl
      expected := toNat_expectedChunkCount (totalSize_ne_zero ha)
      separated := hgaps.separated
      missing := hgaps.covers
      stored := hwalk.stored
      reserved := hwalk.reserved }

end TinyImx.File
