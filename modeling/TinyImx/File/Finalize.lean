import Mathlib.Data.List.Sort
import TinyImx.File.UploadProgress

/-!
# Starting to finalize an upload

`PrepareFinalize` decides from the locked snapshot of an upload whether it is complete enough, and
`FinalizeUpload` composes the object when the progress of what it was handed says so.  Both agree
with the ranges that `BuildProgress` reports.
-/

namespace TinyImx.File

open Local (Bytes ascii)

variable {snapshot : UploadSnapshotView} {progress : UploadProgressView}

/-! ## The manifest and the ranges -/

theorem no_gap_iff (h : Exact snapshot progress) :
    progress.missingRanges = [] ↔
      ∀ i < progress.expectedChunkCount.toNat, StoredAt snapshot.chunks i := by
  rw [← List.map_eq_nil_iff (f := fun r => (r.startIndex.toNat, r.endIndex.toNat))]
  refine (Ranges.eq_nil_iff h.separated).trans (forall_congr' fun i => ?_)
  rw [h.missing, not_and, not_not]

theorem indices_eq_range {walk : Walk} (h : Walked snapshot.bundle snapshot.chunks walk)
    (hfull : ∀ i < (expectedChunkCount snapshot.bundle.session).toNat,
      StoredAt snapshot.chunks i) :
    snapshot.chunks.map (·.chunkIndex.toNat) =
      List.range (expectedChunkCount snapshot.bundle.session).toNat := by
  refine h.increasing.eq_of_mem_iff List.pairwise_lt_range fun i => ?_
  rw [List.mem_range]
  constructor
  · intro hi
    obtain ⟨chunk, hmem, rfl⟩ := List.mem_map.1 hi
    exact UInt64.lt_iff_toNat_lt.1 (h.fits chunk hmem).below
  · intro hi
    obtain ⟨chunk, hmem, heq, -⟩ := hfull i hi
    exact List.mem_map.2 ⟨chunk, hmem, heq⟩

theorem manifestReady_iff (ha : acceptsBundle snapshot.bundle = true) :
    manifestReadyForFinalize snapshot = true ↔
      snapshot.chunks.length = (expectedChunkCount snapshot.bundle.session).toNat ∧
        ∀ i chunk, snapshot.chunks[i]? = some chunk →
          chunk.chunkIndex = UInt64.ofNat i ∧
            chunk.byteOffset = expectedOffset snapshot.bundle.session (UInt64.ofNat i) ∧
            chunk.chunkSize = expectedSize snapshot.bundle.session (UInt64.ofNat i) ∧
            chunk.status = .stored := by
  obtain ⟨-, -, -, -, -, hne, heq, hsize⟩ := acceptsBundle_iff.1 ha
  have hgeometry : ¬ (snapshot.bundle.session.totalSize = 0 ∨
      snapshot.bundle.session.chunkSize = 0 ∨
      snapshot.bundle.session.totalSize ≠ snapshot.bundle.file.totalSize) := by
    rw [← heq]
    simp [hne, hsize]
  simp only [manifestReadyForFinalize]
  rw [if_neg hgeometry]
  by_cases hlen : snapshot.chunks.length = (expectedChunkCount snapshot.bundle.session).toNat
  · rw [if_neg (not_not.2 hlen), List.all_eq_true]
    refine ⟨fun hall => ⟨hlen, fun i chunk hi => ?_⟩, fun hall i hi => ?_⟩
    · have := hall i (List.mem_range.2 (List.getElem?_eq_some_iff.1 hi).1)
      rw [hi] at this
      exact of_decide_eq_true this
    · rw [List.mem_range] at hi
      rw [List.getElem?_eq_getElem hi]
      exact decide_eq_true (hall.2 i _ (List.getElem?_eq_getElem hi))
  · rw [if_pos hlen]
    simp [hlen]

theorem no_gap_iff_manifestReady (h : buildProgress snapshot = some progress) :
    progress.missingRanges = [] ↔ manifestReadyForFinalize snapshot = true := by
  have hexact := exact_of_buildProgress h
  obtain ⟨ha, walk, hwalk, rfl⟩ := buildProgress_eq_some h
  rw [no_gap_iff hexact, manifestReady_iff ha]
  constructor
  · intro hfull
    have hrange := indices_eq_range hwalk hfull
    have hlen := congrArg List.length hrange
    rw [List.length_map, List.length_range] at hlen
    refine ⟨hlen, fun i chunk hi => ?_⟩
    have hmem := List.mem_of_getElem? hi
    have hindex : chunk.chunkIndex.toNat = i := by
      have hi' : i < (expectedChunkCount snapshot.bundle.session).toNat :=
        hlen ▸ (List.getElem?_eq_some_iff.1 hi).1
      have := congrArg (fun l => l[i]?) hrange
      rw [List.getElem?_map, hi, List.getElem?_range hi'] at this
      exact Option.some.inj this
    have hofNat : chunk.chunkIndex = UInt64.ofNat i := by
      rw [← hindex, UInt64.ofNat_toNat]
    have hfits := hwalk.fits chunk hmem
    refine ⟨hofNat, hofNat ▸ hfits.offset, hofNat ▸ hfits.size, ?_⟩
    obtain ⟨other, hother, heq, hs⟩ := hfull i (hindex ▸ UInt64.lt_iff_toNat_lt.1 hfits.below)
    have hsame : other = chunk :=
      List.inj_on_of_nodup_map hwalk.increasing.nodup hother hmem (heq.trans hindex.symm)
    exact hsame ▸ hs
  · rintro ⟨hlen, hall⟩ i hi
    have hi' : i < snapshot.chunks.length := hlen ▸ hi
    obtain ⟨hindex, -, -, hs⟩ := hall i _ (List.getElem?_eq_getElem hi')
    have hmax := (expectedChunkCount snapshot.bundle.session).toNat_lt
    refine ⟨_, List.getElem_mem hi', ?_, hs⟩
    rw [hindex]
    exact UInt64.toNat_ofNat_of_lt' (lt_trans hi hmax)

/-! ## `PrepareFinalize` -/

inductive FileApplicationStatus where
  | succeeded | invalidArgument | notFound | permissionDenied | failedPrecondition | invalidRecord
  | outOfRange | storageError
  deriving DecidableEq

/-- The failures among `FileRepositoryStatus`. -/
inductive FileRepositoryFailure where
  | invalidArgument | notFound | invalidRecord | storageError

/-- A status that is not `kSucceeded`, with its message. -/
structure Refusal where
  status : FileApplicationStatus
  message : String
  deriving DecidableEq

def mapStorageStatus : FileRepositoryFailure → FileApplicationStatus
  | .invalidArgument => .invalidArgument
  | .notFound => .notFound
  | .invalidRecord => .invalidRecord
  | .storageError => .storageError

abbrev RepositoryReply (α : Type) := Except (FileRepositoryFailure × String) α

def RepositoryReply.mapped {α : Type} (reply : RepositoryReply α) : Except Refusal α :=
  reply.mapError fun failure => ⟨mapStorageStatus failure.1, failure.2⟩

inductive FinalizePreparationOutcome where
  | started | resumed | alreadyCompleted | notReady | checksumMismatch

/-- A `FinalizePreparationResult` that succeeded. -/
structure Prepared where
  outcome : FinalizePreparationOutcome
  snapshot : UploadSnapshotView
  message : String

/-- What the repository, the pool and the connection answer to the calls of `PrepareFinalize`. -/
structure PrepareReplies where
  /-- `repository_` and `pool_` are there. -/
  available : Bool := true
  acquired : Bool := true
  /-- `BeginTransaction`, with the last error where it fails. -/
  begun : Except String Unit := .ok ()
  bundle : RepositoryReply (Option FileUploadBundleRecord)
  chunks : RepositoryReply (List FileUploadChunkRecord)
  /-- `BeginFinalizeOnConnection`. -/
  mutation : RepositoryReply Unit
  updatedBundle : RepositoryReply (Option FileUploadBundleRecord)
  committed : Bool := true
  /-- `GetUploadSnapshot` after a commit that failed. -/
  recovered : Option UploadSnapshotView := none

def refuse {α : Type} (status : FileApplicationStatus) (message : String) : Except Refusal α :=
  .error ⟨status, message⟩

def lockedSnapshot (replies : PrepareReplies) : Except Refusal UploadSnapshotView := do
  if replies.available = false then
    refuse .storageError "file repository adapter dependencies are unavailable"
  if replies.acquired = false then
    refuse .storageError "PrepareFinalize failed to acquire database connection"
  match replies.begun with
  | .error lastError =>
    refuse .storageError ("PrepareFinalize failed to begin transaction: " ++ lastError)
  | .ok () => pure ()
  match ← replies.bundle.mapped with
  | none => refuse .notFound "upload session not found"
  | some bundle =>
    let chunks ← replies.chunks.mapped
    match toSnapshot bundle chunks with
    | none => refuse .invalidRecord "FinalizeUpload snapshot contains inconsistent durable records"
    | some snapshot => pure snapshot

/-- `PrepareFinalize` after `BeginFinalizeOnConnection` was called. -/
def finishPrepare (replies : PrepareReplies) : Except Refusal Prepared := do
  replies.mutation.mapped
  let updated ← match ← replies.updatedBundle.mapped with
    | none => refuse .invalidRecord "FINALIZING upload could not be re-read"
    | some updated => pure updated
  let chunks ← replies.chunks.mapped
  let invalid := refuse .invalidRecord "prepare finalize transaction produced invalid state"
  match toSnapshot updated chunks with
  | none => invalid
  | some snapshot =>
    if snapshot.bundle.session.status ≠ .finalizing ∨ snapshot.bundle.file.status ≠ .verifying then
      invalid
    else if replies.committed then
      pure ⟨.started, snapshot,
        "upload durably entered FINALIZING/VERIFYING before storage assembly"⟩
    else
      match replies.recovered with
      | some recovered =>
        if recovered.bundle.session.status = .finalizing ∧
            recovered.bundle.file.status = .verifying then
          pure ⟨.resumed, recovered, "ambiguous finalize-start commit recovered from durable state"⟩
        else if recovered.bundle.session.status = .completed ∧
            recovered.bundle.file.status = .available then
          pure ⟨.alreadyCompleted, recovered,
            "ambiguous finalize-start commit recovered completed state"⟩
        else refuse .storageError "PrepareFinalize transaction commit failed"
      | none => refuse .storageError "PrepareFinalize transaction commit failed"

/-- What `PrepareFinalize` does: whether it called `BeginFinalizeOnConnection`, and its result. -/
structure Preparation where
  begins : Bool
  result : Except Refusal Prepared

def prepareLocked (replies : PrepareReplies) (snapshot : UploadSnapshotView) : Preparation :=
  let session := snapshot.bundle.session.status
  let file := snapshot.bundle.file.status
  if session = .completed ∧ file = .available then
    ⟨false, .ok ⟨.alreadyCompleted, snapshot,
      "FinalizeUpload reused COMPLETED/AVAILABLE durable state"⟩⟩
  else if session = .finalizing ∧ file = .failed then
    ⟨false, .ok ⟨.checksumMismatch, snapshot,
      "FinalizeUpload previously failed whole-file checksum verification"⟩⟩
  else if session = .finalizing ∧ file = .verifying then
    if manifestReadyForFinalize snapshot = false then
      ⟨false, refuse .invalidRecord "FINALIZING/VERIFYING upload has incomplete durable manifest"⟩
    else
      ⟨false, .ok ⟨.resumed, snapshot,
        "FinalizeUpload resumed durable FINALIZING/VERIFYING state"⟩⟩
  else if session ≠ .active ∨ file ≠ .uploading then
    ⟨false, refuse .failedPrecondition
      "FinalizeUpload requires ACTIVE/UPLOADING, FINALIZING/VERIFYING, or completed state"⟩
  else if manifestReadyForFinalize snapshot = false then
    ⟨false, .ok ⟨.notReady, snapshot, "durable manifest is not complete enough to finalize"⟩⟩
  else ⟨true, finishPrepare replies⟩

def prepareFinalize (replies : PrepareReplies) : Preparation :=
  match lockedSnapshot replies with
  | .error refusal => ⟨false, .error refusal⟩
  | .ok snapshot => prepareLocked replies snapshot

/-! ## `FinalizeUpload` -/

structure StoredChunkPart where
  storagePartKey : Bytes
  expectedSize : UInt64
  expectedSha256 : Bytes
  deriving DecidableEq

structure ComposeObjectRequest where
  storageKey : Bytes
  expectedTotalSize : UInt64
  expectedSha256 : Bytes
  parts : List StoredChunkPart
  deriving DecidableEq

/-- What `FinalizeUpload` does before it calls the storage: it answers, or composes the object. -/
inductive FinalizeUpload where
  | failed (refusal : Refusal)
  | notReady (progress : UploadProgressView) (bundle : UploadBundleView) (message : String)
  | checksumMismatch (progress : UploadProgressView) (bundle : UploadBundleView)
      (verifiedChecksum : Bytes) (message : String)
  | reused (progress : UploadProgressView) (bundle : UploadBundleView)
      (verifiedChecksum : Bytes) (message : String)
  | compose (request : ComposeObjectRequest) (progress : UploadProgressView)
  deriving DecidableEq

/-- The request of `FinalizeUpload`, unless some chunk is not stored. -/
def composeRequest (snapshot : UploadSnapshotView) : Option ComposeObjectRequest := do
  let parts ← snapshot.chunks.mapM fun chunk =>
    if chunk.status ≠ .stored then none
    else some ⟨chunk.storagePartKey, chunk.chunkSize, chunk.checksum⟩
  return {
    storageKey := snapshot.bundle.file.storageKey
    expectedTotalSize := snapshot.bundle.file.totalSize
    expectedSha256 := snapshot.bundle.file.expectedChecksum
    parts }

def finalizePrepared (prepared : Prepared) (progress : UploadProgressView) : FinalizeUpload :=
  let bundle := prepared.snapshot.bundle
  match prepared.outcome with
  | .notReady =>
    .notReady progress bundle "FinalizeUpload requires every expected chunk to be STORED"
  | .checksumMismatch =>
    .checksumMismatch progress bundle bundle.file.verifiedChecksum
      "upload is durably failed because whole-file SHA-256 mismatched"
  | .alreadyCompleted =>
    .reused progress bundle bundle.file.verifiedChecksum
      "FinalizeUpload safely reused AVAILABLE durable state"
  | .started | .resumed =>
    if progress.readyToFinalize = false then
      .failed ⟨.invalidRecord, "FINALIZING upload no longer has a complete STORED manifest"⟩
    else
      match composeRequest prepared.snapshot with
      | none =>
        .failed ⟨.invalidRecord, "FinalizeUpload encountered non-STORED chunk after preparation"⟩
      | some request => .compose request progress

/-- `FileApplicationService::FinalizeUpload` up to its call of `ComposeObjectAtomically`. -/
def finalizeUpload (actorUserId uploadId : UInt64) (replies : PrepareReplies) : FinalizeUpload :=
  if actorUserId = 0 ∨ uploadId = 0 then
    .failed ⟨.invalidArgument, "actor_user_id and upload_id must be non-zero"⟩
  else
    match (prepareFinalize replies).result with
    | .error refusal => .failed refusal
    | .ok prepared =>
      match buildProgress prepared.snapshot with
      | none =>
        .failed ⟨.invalidRecord, "FinalizeUpload snapshot violates durable chunk geometry"⟩
      | some progress => finalizePrepared prepared progress

/-! ## Finalizing and the ranges -/

/-- The upload with the statuses that `BeginFinalizeOnConnection` writes. -/
def UploadSnapshotView.finalizing (snapshot : UploadSnapshotView) : UploadSnapshotView :=
  { snapshot with bundle :=
    { file := { snapshot.bundle.file with status := .verifying }
      session := { snapshot.bundle.session with status := .finalizing } } }

/-- The transaction of `PrepareFinalize` takes effect on the upload. -/
structure TakesEffect (replies : PrepareReplies) (snapshot : UploadSnapshotView) : Prop where
  mutation : replies.mutation = .ok ()
  updated : ∃ bundle chunks, replies.updatedBundle = .ok (some bundle) ∧
    replies.chunks = .ok chunks ∧ toSnapshot bundle chunks = some snapshot.finalizing
  committed : replies.committed = true

theorem buildProgress_finalizing (h : buildProgress snapshot = some progress) :
    ∃ progress', buildProgress snapshot.finalizing = some progress' ∧
      progress'.missingRanges = progress.missingRanges := by
  rw [buildProgress] at h
  split at h
  case isFalse => cases h
  case isTrue ha =>
  obtain ⟨walk, hrun, rfl⟩ := Option.map_eq_some_iff.1 h
  refine ⟨finishProgress snapshot.finalizing.bundle walk, ?_, rfl⟩
  rw [buildProgress]
  exact (if_pos ha).trans (congrArg _ hrun)

theorem exists_parts {chunks : List UploadChunkView}
    (h : ∀ chunk ∈ chunks, chunk.status = .stored) :
    ∃ parts, (chunks.mapM fun chunk : UploadChunkView =>
      if chunk.status ≠ .stored then none
      else some (⟨chunk.storagePartKey, chunk.chunkSize, chunk.checksum⟩ : StoredChunkPart)) =
        some parts := by
  induction chunks with
  | nil => exact ⟨[], rfl⟩
  | cons chunk chunks ih =>
    obtain ⟨parts, hparts⟩ := ih fun c hmem => h c (List.mem_cons_of_mem _ hmem)
    rw [List.mapM_cons, hparts, if_neg (not_not.2 (h chunk List.mem_cons_self))]
    exact ⟨_, rfl⟩

theorem exists_composeRequest (h : manifestReadyForFinalize snapshot = true)
    (ha : acceptsBundle snapshot.bundle = true) :
    ∃ request, composeRequest snapshot = some request := by
  have hstored : ∀ chunk ∈ snapshot.chunks, chunk.status = .stored := by
    intro chunk hmem
    obtain ⟨i, hi⟩ := List.mem_iff_getElem?.1 hmem
    exact (((manifestReady_iff ha).1 h).2 i chunk hi).2.2.2
  obtain ⟨parts, hparts⟩ := exists_parts hstored
  rw [composeRequest, hparts]
  exact ⟨_, rfl⟩

theorem readyToFinalize_eq (h : buildProgress snapshot = some progress)
    (hopen : mutableOrFinalizing snapshot.bundle = true) (hgap : progress.missingRanges = []) :
    progress.readyToFinalize = true := by
  have hready := (no_gap_iff_manifestReady h).1 hgap
  have hexact := exact_of_buildProgress h
  obtain ⟨ha, walk, hwalk, rfl⟩ := buildProgress_eq_some h
  obtain ⟨hlen, hall⟩ := (manifestReady_iff ha).1 hready
  have hcount : walk.storedChunkCount = expectedChunkCount snapshot.bundle.session := by
    refine UInt64.toNat_inj.1 (hexact.stored.trans (.trans ?_ hlen))
    refine List.countP_eq_length.2 fun chunk hmem => ?_
    obtain ⟨i, hi⟩ := List.mem_iff_getElem?.1 hmem
    exact decide_eq_true (hall i chunk hi).2.2.2
  change (mutableOrFinalizing snapshot.bundle &&
    (finishProgress snapshot.bundle walk).missingRanges.isEmpty &&
    walk.storedChunkCount == expectedChunkCount snapshot.bundle.session) = true
  rw [hopen, hgap, hcount]
  exact beq_self_eq_true _

theorem finalizePrepared_compose {prepared : Prepared}
    (h : buildProgress prepared.snapshot = some progress)
    (hopen : mutableOrFinalizing prepared.snapshot.bundle = true)
    (hgap : progress.missingRanges = [])
    (houtcome : prepared.outcome = .started ∨ prepared.outcome = .resumed) :
    ∃ request, finalizePrepared prepared progress = .compose request progress := by
  have hready := readyToFinalize_eq h hopen hgap
  obtain ⟨request, hrequest⟩ := exists_composeRequest ((no_gap_iff_manifestReady h).1 hgap)
    (buildProgress_eq_some h).1
  refine ⟨request, ?_⟩
  rcases houtcome with houtcome | houtcome
  all_goals
    unfold finalizePrepared
    rw [houtcome, hrequest, hready]
    rfl

theorem no_gap_of_readyToFinalize (h : buildProgress snapshot = some progress)
    (hready : progress.readyToFinalize = true) : progress.missingRanges = [] := by
  obtain ⟨-, walk, -, rfl⟩ := buildProgress_eq_some h
  have hready : (mutableOrFinalizing snapshot.bundle &&
    (finishProgress snapshot.bundle walk).missingRanges.isEmpty &&
    walk.storedChunkCount == expectedChunkCount snapshot.bundle.session) = true := hready
  rw [Bool.and_eq_true, Bool.and_eq_true] at hready
  exact List.isEmpty_iff.1 hready.1.2

theorem no_gap_of_finalizePrepared {prepared : Prepared} {request : ComposeObjectRequest}
    {progress' : UploadProgressView} (h : buildProgress prepared.snapshot = some progress)
    (hcompose : finalizePrepared prepared progress = .compose request progress') :
    progress' = progress ∧ progress.missingRanges = [] := by
  have hready : progress.readyToFinalize = true ∧ progress' = progress := by
    unfold finalizePrepared at hcompose
    grind
  exact ⟨hready.2, no_gap_of_readyToFinalize h hready.1⟩

theorem no_gap_of_compose {actorUserId uploadId : UInt64} {replies : PrepareReplies}
    {request : ComposeObjectRequest}
    (h : finalizeUpload actorUserId uploadId replies = .compose request progress) :
    progress.missingRanges = [] := by
  unfold finalizeUpload at h
  split at h
  · cases h
  split at h
  · cases h
  split at h
  · cases h
  · next hprogress =>
    obtain ⟨rfl, hgap⟩ := no_gap_of_finalizePrepared hprogress h
    exact hgap

variable {actorUserId uploadId : UInt64} {replies : PrepareReplies}

theorem prepareFinalize_of_locked (hlock : lockedSnapshot replies = .ok snapshot) :
    prepareFinalize replies = prepareLocked replies snapshot := by
  rw [prepareFinalize, hlock]

theorem finalizeUpload_of_prepared {prepared : Prepared} (ha : actorUserId ≠ 0)
    (hu : uploadId ≠ 0) (hprepared : (prepareFinalize replies).result = .ok prepared)
    (h : buildProgress prepared.snapshot = some progress) :
    finalizeUpload actorUserId uploadId replies = finalizePrepared prepared progress := by
  unfold finalizeUpload
  simp_all

/-! ### An upload that is still open -/

theorem prepareLocked_active (hs : snapshot.bundle.session.status = .active)
    (hf : snapshot.bundle.file.status = .uploading) :
    prepareLocked replies snapshot =
      if manifestReadyForFinalize snapshot = false then
        ⟨false, .ok ⟨.notReady, snapshot, "durable manifest is not complete enough to finalize"⟩⟩
      else ⟨true, finishPrepare replies⟩ := by
  unfold prepareLocked
  rw [hs, hf]
  rfl

theorem begins_active (h : buildProgress snapshot = some progress)
    (hs : snapshot.bundle.session.status = .active)
    (hf : snapshot.bundle.file.status = .uploading) :
    (prepareLocked replies snapshot).begins = true ↔ progress.missingRanges = [] := by
  rw [prepareLocked_active hs hf, no_gap_iff_manifestReady h]
  cases manifestReadyForFinalize snapshot <;> simp

theorem finishPrepare_of_takesEffect (h : TakesEffect replies snapshot) :
    finishPrepare replies = .ok ⟨.started, snapshot.finalizing,
      "upload durably entered FINALIZING/VERIFYING before storage assembly"⟩ := by
  obtain ⟨bundle, chunks, hupdated, hchunks, hsnapshot⟩ := h.updated
  unfold finishPrepare
  rw [h.mutation, hupdated, hchunks, h.committed]
  change (match toSnapshot bundle chunks with
    | none => _
    | some snapshot => _ : Except Refusal Prepared) = _
  rw [hsnapshot]
  rfl

/-- What `FinalizeUpload` makes of an upload in `ACTIVE/UPLOADING`. -/
structure OpenUpload (actorUserId uploadId : UInt64) (replies : PrepareReplies)
    (snapshot : UploadSnapshotView) (progress : UploadProgressView) : Prop where
  begins : (prepareFinalize replies).begins = true ↔ progress.missingRanges = []
  gap : progress.missingRanges ≠ [] →
    finalizeUpload actorUserId uploadId replies =
      .notReady progress snapshot.bundle "FinalizeUpload requires every expected chunk to be STORED"
  full : progress.missingRanges = [] → TakesEffect replies snapshot →
    ∃ request progress', progress'.missingRanges = [] ∧
      finalizeUpload actorUserId uploadId replies = .compose request progress'

theorem openUpload (ha : actorUserId ≠ 0) (hu : uploadId ≠ 0)
    (hlock : lockedSnapshot replies = .ok snapshot) (h : buildProgress snapshot = some progress)
    (hs : snapshot.bundle.session.status = .active)
    (hf : snapshot.bundle.file.status = .uploading) :
    OpenUpload actorUserId uploadId replies snapshot progress := by
  have hprepare := (prepareFinalize_of_locked hlock).trans (prepareLocked_active hs hf)
  refine ⟨?_, fun hgap => ?_, fun hgap heffect => ?_⟩
  · rw [prepareFinalize_of_locked hlock, begins_active h hs hf]
  · have hready : manifestReadyForFinalize snapshot = false :=
      eq_false_of_ne_true fun hready => hgap ((no_gap_iff_manifestReady h).2 hready)
    rw [if_pos hready] at hprepare
    exact finalizeUpload_of_prepared ha hu (congrArg Preparation.result hprepare) h
  · have hready := (no_gap_iff_manifestReady h).1 hgap
    rw [if_neg (by simp [hready]),
      finishPrepare_of_takesEffect heffect] at hprepare
    obtain ⟨progress', hprogress', hsame⟩ := buildProgress_finalizing h
    have hgap' : progress'.missingRanges = [] := hsame.trans hgap
    obtain ⟨request, hrequest⟩ := @finalizePrepared_compose _
      ⟨.started, snapshot.finalizing,
        "upload durably entered FINALIZING/VERIFYING before storage assembly"⟩
      hprogress' rfl hgap' (.inl rfl)
    refine ⟨request, progress', hgap', ?_⟩
    rw [finalizeUpload_of_prepared ha hu (congrArg Preparation.result hprepare) hprogress',
      hrequest]

/-- What `FinalizeUpload` makes of an upload in `FINALIZING/VERIFYING`. -/
structure ResumedUpload (actorUserId uploadId : UInt64) (replies : PrepareReplies)
    (progress : UploadProgressView) : Prop where
  begins : (prepareFinalize replies).begins = false
  gap : progress.missingRanges ≠ [] →
    finalizeUpload actorUserId uploadId replies =
      .failed ⟨.invalidRecord, "FINALIZING/VERIFYING upload has incomplete durable manifest"⟩
  full : progress.missingRanges = [] →
    ∃ request, finalizeUpload actorUserId uploadId replies = .compose request progress

theorem resumedUpload (ha : actorUserId ≠ 0) (hu : uploadId ≠ 0)
    (hlock : lockedSnapshot replies = .ok snapshot) (h : buildProgress snapshot = some progress)
    (hs : snapshot.bundle.session.status = .finalizing)
    (hf : snapshot.bundle.file.status = .verifying) :
    ResumedUpload actorUserId uploadId replies progress := by
  have hprepare : prepareFinalize replies =
      if manifestReadyForFinalize snapshot = false then
        ⟨false, refuse .invalidRecord "FINALIZING/VERIFYING upload has incomplete durable manifest"⟩
      else ⟨false, .ok ⟨.resumed, snapshot,
        "FinalizeUpload resumed durable FINALIZING/VERIFYING state"⟩⟩ := by
    rw [prepareFinalize_of_locked hlock]
    unfold prepareLocked
    rw [hs, hf]
    rfl
  refine ⟨?_, fun hgap => ?_, fun hgap => ?_⟩
  · rw [hprepare]
    split <;> rfl
  · have hready : manifestReadyForFinalize snapshot = false :=
      eq_false_of_ne_true fun hready => hgap ((no_gap_iff_manifestReady h).2 hready)
    rw [if_pos hready] at hprepare
    unfold finalizeUpload
    rw [if_neg (not_or.2 ⟨ha, hu⟩), hprepare]
    rfl
  · have hready := (no_gap_iff_manifestReady h).1 hgap
    rw [if_neg (by simp [hready])] at hprepare
    have hopen : mutableOrFinalizing snapshot.bundle = true := by
      simp [mutableOrFinalizing, hs, hf]
    obtain ⟨request, hrequest⟩ := @finalizePrepared_compose _
      ⟨.resumed, snapshot,
        "FinalizeUpload resumed durable FINALIZING/VERIFYING state"⟩ h hopen hgap (.inr rfl)
    refine ⟨request, ?_⟩
    rw [finalizeUpload_of_prepared ha hu (congrArg Preparation.result hprepare) h, hrequest]

theorem not_begins (hlock : lockedSnapshot replies = .ok snapshot)
    (hother : ¬ (snapshot.bundle.session.status = .active ∧
      snapshot.bundle.file.status = .uploading)) :
    (prepareFinalize replies).begins = false := by
  rw [prepareFinalize_of_locked hlock]
  simp only [prepareLocked]
  split
  · rfl
  split
  · rfl
  grind

/-! ## Progress is exact -/

structure NoWrap (snapshot : UploadSnapshotView) (progress : UploadProgressView) : Prop where
  offsets : ∀ index < progress.expectedChunkCount,
    index.toNat * snapshot.bundle.session.chunkSize.toNat <
      snapshot.bundle.session.totalSize.toNat
  chunks : ∀ chunk ∈ snapshot.chunks,
    chunk.byteOffset.toNat =
        chunk.chunkIndex.toNat * snapshot.bundle.session.chunkSize.toNat ∧
      chunk.chunkSize.toNat = min snapshot.bundle.session.chunkSize.toNat
        (snapshot.bundle.session.totalSize.toNat -
          chunk.chunkIndex.toNat * snapshot.bundle.session.chunkSize.toNat)

theorem noWrap (h : buildProgress snapshot = some progress) : NoWrap snapshot progress := by
  obtain ⟨ha, walk, hwalk, rfl⟩ := buildProgress_eq_some h
  have hne := totalSize_ne_zero ha
  refine ⟨fun index hi => mul_chunkSize_lt hne (UInt64.lt_iff_toNat_lt.1 hi), fun chunk hmem => ?_⟩
  obtain ⟨hbelow, hoffset, hsize⟩ := hwalk.fits chunk hmem
  rw [hoffset, hsize]
  exact ⟨toNat_expectedOffset hne hbelow, toNat_expectedSize hne hbelow⟩

/-- The ranges that `BuildProgress` returns are the gaps of the manifest, and finalizing starts on
an open upload exactly where there is none. -/
theorem progress_exact (snapshot : UploadSnapshotView) (progress : UploadProgressView)
    (h : buildProgress snapshot = some progress) :
    Exact snapshot progress ∧ NoWrap snapshot progress ∧
      (progress.missingRanges = [] ↔ manifestReadyForFinalize snapshot = true) ∧
      ∀ replies actorUserId uploadId, lockedSnapshot replies = .ok snapshot →
        actorUserId ≠ 0 → uploadId ≠ 0 →
        (snapshot.bundle.session.status = .active ∧ snapshot.bundle.file.status = .uploading →
          OpenUpload actorUserId uploadId replies snapshot progress) ∧
        (snapshot.bundle.session.status = .finalizing ∧
            snapshot.bundle.file.status = .verifying →
          ResumedUpload actorUserId uploadId replies progress) ∧
        (¬ (snapshot.bundle.session.status = .active ∧
            snapshot.bundle.file.status = .uploading) →
          (prepareFinalize replies).begins = false) ∧
        ∀ request progress', finalizeUpload actorUserId uploadId replies =
          .compose request progress' → progress'.missingRanges = [] :=
  ⟨exact_of_buildProgress h, noWrap h, no_gap_iff_manifestReady h,
    fun _ _ _ hlock ha hu =>
      ⟨fun hstate => openUpload ha hu hlock h hstate.1 hstate.2,
        fun hstate => resumedUpload ha hu hlock h hstate.1 hstate.2,
        not_begins hlock, fun _ _ => no_gap_of_compose⟩⟩

/-- Rows of an upload of five bytes in chunks of two, with the chunks at `indices`. -/
def sampleReplies (sessionStatus fileStatus : UInt32) (indices : List UInt64) : PrepareReplies where
  bundle := .ok (some
    { file := { fileId := 7, ownerUserId := 1, totalSize := 5, status := fileStatus }
      session :=
        { uploadId := 9, fileId := 7, ownerUserId := 1, totalSize := 5, chunkSize := 2
          status := sessionStatus } })
  chunks := .ok (indices.map fun index =>
    { uploadId := 9, chunkIndex := index, fileId := 7, ownerUserId := 1, byteOffset := index * 2
      chunkSize := min 2 (5 - index * 2), checksumAlgorithm := ascii "sha256"
      checksum := List.replicate 64 97, storagePartKey := ascii "part", status := 2 })
  mutation := .ok ()
  updatedBundle := .ok none

def sampleSnapshot (session : UploadSessionStatus) (file : FileStatus) (indices : List UInt64) :
    UploadSnapshotView where
  bundle :=
    { file := { fileId := 7, ownerUserId := 1, totalSize := 5, status := file }
      session :=
        { uploadId := 9, fileId := 7, ownerUserId := 1, totalSize := 5, chunkSize := 2
          status := session } }
  chunks := indices.map fun index =>
    { uploadId := 9, chunkIndex := index, fileId := 7, ownerUserId := 1, byteOffset := index * 2
      chunkSize := min 2 (5 - index * 2), checksumAlgorithm := ascii "sha256"
      checksum := List.replicate 64 97, storagePartKey := ascii "part", status := .stored }

theorem progress_exact_sample :
    ∃ progress, buildProgress (sampleSnapshot .active .uploading [0, 2]) = some progress ∧
      progress.missingRanges = [⟨1, 1⟩] ∧
      Exact (sampleSnapshot .active .uploading [0, 2]) progress :=
  ⟨_, rfl, by decide, (progress_exact _ _ rfl).1⟩

/-- A canceled upload that shows no gap is refused. -/
theorem canceled_refused :
    ∃ progress, buildProgress (sampleSnapshot .canceled .canceled [0, 1, 2]) = some progress ∧
      progress.missingRanges = [] ∧
      lockedSnapshot (sampleReplies 4 5 [0, 1, 2]) =
        .ok (sampleSnapshot .canceled .canceled [0, 1, 2]) ∧
      finalizeUpload 1 9 (sampleReplies 4 5 [0, 1, 2]) = .failed ⟨.failedPrecondition,
        "FinalizeUpload requires ACTIVE/UPLOADING, FINALIZING/VERIFYING, or completed state"⟩ :=
  ⟨_, rfl, by decide, by decide, by decide⟩

end TinyImx.File
