import Libtg.Lib.Handles
import Libtg.Tg.DocumentSend
import Libtg.Tg.DownloadEnds

/-!
# Uploading a big file (`tg/files.c`)

The branch of `tg_document_send` for files of more than 10 MB, up to the `inputFile` the media are
then made of. The buffers of the requests are handles in a ledger, so that it is seen whether a
buffer is still there when it is sent. The server answers the attempts one after the other.
-/

namespace Libtg

open Handles Loop

def idUploadSaveBigFilePart : UInt32 := 0xde7b673d
def idInputFileBig : UInt32 := 0xfa4f0bb5

/-- `upload.saveBigFilePart#de7b673d file_id:long file_part:int file_total_parts:int bytes:bytes =
Bool;`. -/
def uploadSaveBigFilePart : Entry :=
  ⟨false, "upload_saveBigFilePart", idUploadSaveBigFilePart,
    [⟨"file_id", some "long", 0, 0⟩, ⟨"file_part", some "int", 0, 0⟩,
      ⟨"file_total_parts", some "int", 0, 0⟩, ⟨"bytes", some "bytes", 0, 0⟩]⟩

/-- `tl_upload_saveBigFilePart`. -/
def tlUploadSaveBigFilePart (fileId : UInt64) (filePart fileTotalParts : UInt32) (bytes : Bytes) :
    Bytes :=
  layout [vector] uploadSaveBigFilePart
    [.long fileId, .int filePart, .int fileTotalParts, .bytes bytes] fun _ => 0

/-- `inputFileBig#fa4f0bb5 id:long parts:int name:string = InputFile;`. -/
def inputFileBig : Entry :=
  ⟨false, "inputFileBig", idInputFileBig,
    [⟨"id", some "long", 0, 0⟩, ⟨"parts", some "int", 0, 0⟩, ⟨"name", some "string", 0, 0⟩]⟩

/-- `tl_inputFileBig`. -/
def tlInputFileBig (id : UInt64) (parts : UInt32) (name : Bytes) : Bytes :=
  layout [vector] inputFileBig [.long id, .int parts, .bytes name] fun _ => 0

/-! ## The upload -/

/-- `size`, an `int`. -/
def fileSize (content : Bytes) : Int := (content.length : Int).bmod (2 ^ 32)

/-- `file_total_parts`. -/
def fileTotalParts (content : Bytes) : UInt32 :=
  UInt32.ofInt (fileSize content / partSize + if fileSize content % partSize = 0 then 0 else 1)

/-- A request as `tg_send_query_sync` gets it: the block of its buffer, whether it is still there,
and what was encoded in it. -/
structure SentBlock where
  block : Nat
  alive : Bool
  query : Bytes

/-- As in `Upload`; `calls` counts the calls of `progress`, and `sent` has the latest first. -/
structure BigUpload where
  rest : Bytes
  bytes : Option Bytes
  buf : Bytes
  filePart : UInt32
  retry : Int
  calls : Nat
  blocks : Ledger
  sent : List SentBlock

/-- How the part of `tg_document_send` up to the `inputFile` ends: it goes on with the media, or it
returns 1. -/
inductive SendEnd where
  | media
  | error
  deriving DecidableEq

section
variable (answers : Nat → Tl) (progress : Option (Nat → Int)) (fileId : UInt64) (total : UInt32)

/-- `fread` and what is done once for a part, or one sending of it. The request is freed before it
is sent, and after ten refusals the retrying is only reported. -/
def saveBigFilePartStep (s : BigUpload) : SendEnd × BigUpload ⊕ BigUpload :=
  match s.bytes with
  | none =>
    let bytes := s.rest.take partSize
    if bytes.length > 0 then
      .inr { s with rest := s.rest.drop partSize, bytes := some bytes, buf := s.buf ++ bytes }
    else .inl (.media, s)
  | some bytes =>
    let query := tlUploadSaveBigFilePart fileId s.filePart total bytes
    let saveFilePart := s.blocks.taken
    let blocks := s.blocks.take.release (some saveFilePart)
    let sent := ⟨saveFilePart, saveFilePart ∉ blocks.released, query⟩ :: s.sent
    let s := { s with blocks := blocks, sent := sent }
    if (answers (sent.length - 1)).id ≠ idBoolTrue then
      .inr { s with retry := (s.retry + 1).bmod (2 ^ 32) }
    else if progress.any fun f => f s.calls ≠ 0 then .inl (.error, s)
    else .inr { s with bytes := none, filePart := s.filePart + 1, calls := s.calls + 1 }

end

/-- The state in front of the loop. -/
def BigUpload.start (content : Bytes) : BigUpload := ⟨content, none, [], 0, 0, 0, .empty, []⟩

section
variable (answers : Nat → Tl) (progress : Option (Nat → Int)) (fileId : UInt64)
  (filename content : Bytes)

/-- The branch for big files comes to this state, or ends in it; without a file name it does not
begin. -/
def BigUpload.Comes (s : BigUpload) : Prop :=
  filename.headD 0 ≠ 0 ∧
    (Visits (saveBigFilePartStep answers progress fileId (fileTotalParts content))
        (.start content) s ∨
      ∃ e, Yields (saveBigFilePartStep answers progress fileId (fileTotalParts content))
        (.start content) (e, s))

/-- The branch for big files ends in this way. -/
def BigUpload.EndsWith (r : SendEnd × BigUpload) : Prop :=
  if filename.headD 0 = 0 then r = (.error, .start content)
  else
    Yields (saveBigFilePartStep answers progress fileId (fileTotalParts content)) (.start content) r

/-- The part `i` of a big file, as it is to be sent. -/
def bigPart (i : Nat) : Bytes :=
  tlUploadSaveBigFilePart fileId (UInt32.ofNat i) (UInt32.ofNat (partCount content))
    (part content (i * partSize) partSize)

/-- The branch for big files uploads from live data: a request that is sent is still there and is a
part of the file, the parts that are accepted are all of them, in order and once each, they are the
file, and every buffer is freed once. -/
structure UploadsLive : Prop where
  alive : ∀ s, BigUpload.Comes answers progress fileId filename content s → ∀ q ∈ s.sent, q.alive
  encodes : ∀ s, BigUpload.Comes answers progress fileId filename content s → ∀ q ∈ s.sent,
    ∃ i < partCount content, q.query = bigPart fileId content i
  accepted : ∀ r, BigUpload.EndsWith answers progress fileId filename content r →
    accepted (inOrder answers) (r.2.sent.map SentBlock.query) =
      (List.range (partCount content)).map (bigPart fileId content)
  whole : ((List.range (partCount content)).map fun i =>
    part content (i * partSize) partSize).flatten = content
  released : ∀ r, BigUpload.EndsWith answers progress fileId filename content r → r.2.blocks.Settled

end

/-! ## What is sent -/

section
variable (answers : Nat → Tl) (progress : Option (Nat → Int)) (fileId : UInt64) (total : UInt32)
  {bytes : Bytes} {s : BigUpload}

theorem saveBigFilePartStep_read (hbytes : s.bytes = none) (hrest : s.rest ≠ []) :
    saveBigFilePartStep answers progress fileId total s =
      .inr { s with
        rest := s.rest.drop partSize
        bytes := some (s.rest.take partSize)
        buf := s.buf ++ s.rest.take partSize } := by
  have hlen : (s.rest.take partSize).length > 0 := by
    rw [List.length_take, partSize]
    have := List.length_pos_iff.mpr hrest
    omega
  simp only [saveBigFilePartStep, hbytes, if_pos hlen]

theorem saveBigFilePartStep_end (hbytes : s.bytes = none) (hrest : s.rest = []) :
    saveBigFilePartStep answers progress fileId total s = .inl (.media, s) := by
  simp [saveBigFilePartStep, hbytes, hrest]

/-- The state after a request, whatever the answer. -/
def BigUpload.send (fileId : UInt64) (total : UInt32) (bytes : Bytes) (s : BigUpload) : BigUpload :=
  { s with
    blocks := s.blocks.take.release (some s.blocks.taken)
    sent :=
      ⟨s.blocks.taken, false, tlUploadSaveBigFilePart fileId s.filePart total bytes⟩ :: s.sent }

/-- What is sent was freed. -/
theorem mem_released (l : Ledger) : l.taken ∈ (l.take.release (some l.taken)).released :=
  List.mem_cons_self (l := l.released)

variable {answers}

theorem saveBigFilePartStep_refused (hbytes : s.bytes = some bytes)
    (h : (answers s.sent.length).id ≠ idBoolTrue) :
    saveBigFilePartStep answers progress fileId total s =
      .inr { s.send fileId total bytes with retry := (s.retry + 1).bmod (2 ^ 32) } := by
  simp [saveBigFilePartStep, hbytes, h, BigUpload.send, mem_released]

variable {progress}

theorem saveBigFilePartStep_cancelled (hbytes : s.bytes = some bytes)
    (h : (answers s.sent.length).id = idBoolTrue)
    (hcancel : progress.any fun f => f s.calls ≠ 0) :
    saveBigFilePartStep answers progress fileId total s =
      .inl (.error, s.send fileId total bytes) := by
  simp only [saveBigFilePartStep, hbytes, List.length_cons, Nat.add_sub_cancel, h, hcancel, ne_eq,
    not_true_eq_false, if_false, if_true, BigUpload.send, mem_released, decide_false]

theorem saveBigFilePartStep_accepted (hbytes : s.bytes = some bytes)
    (h : (answers s.sent.length).id = idBoolTrue)
    (hcancel : ¬ progress.any fun f => f s.calls ≠ 0) :
    saveBigFilePartStep answers progress fileId total s =
      .inr { s.send fileId total bytes with
        bytes := none
        filePart := s.filePart + 1
        calls := s.calls + 1 } := by
  simp only [saveBigFilePartStep, hbytes, List.length_cons, Nat.add_sub_cancel, h, hcancel, ne_eq,
    not_true_eq_false, if_false, BigUpload.send, mem_released, decide_false]
  rfl

end

section
variable {answers : Nat → Tl} {progress : Option (Nat → Int)} {fileId : UInt64}
  {filename content bytes : Bytes} {s : BigUpload}

/-- At the label a request follows, and its buffer was freed before. -/
theorem BigUpload.comes_dead_of_label (hname : filename.headD 0 ≠ 0)
    (hvisits : Visits (saveBigFilePartStep answers progress fileId (fileTotalParts content))
      (.start content) s) (hbytes : s.bytes = some bytes) :
    ∃ t, BigUpload.Comes answers progress fileId filename content t ∧
      ∃ q ∈ t.sent, q.alive = false := by
  by_cases h : (answers s.sent.length).id = idBoolTrue
  · by_cases hcancel : progress.any fun f => f s.calls ≠ 0
    · have hstep := saveBigFilePartStep_cancelled fileId (fileTotalParts content) hbytes h hcancel
      exact ⟨_, ⟨hname, .inr ⟨.error, hvisits.yields.mpr ((yields_leave hstep).mpr rfl)⟩⟩,
        _, List.mem_cons_self, rfl⟩
    · have hstep := saveBigFilePartStep_accepted fileId (fileTotalParts content) hbytes h hcancel
      exact ⟨_, ⟨hname, .inl (.next hvisits hstep)⟩, _, List.mem_cons_self, rfl⟩
  · have hstep := saveBigFilePartStep_refused progress fileId (fileTotalParts content) hbytes h
    exact ⟨_, ⟨hname, .inl (.next hvisits hstep)⟩, _, List.mem_cons_self, rfl⟩

theorem partCount_pos (hcontent : content ≠ []) : 0 < partCount content := by
  have hpos := List.length_pos_iff.mpr hcontent
  rw [partCount, partSize]
  omega

theorem not_uploadsLive_of_ne_nil (hcontent : content ≠ []) :
    ¬ UploadsLive answers progress fileId filename content := by
  intro hlive
  by_cases hname : filename.headD 0 = 0
  · -- without a name no part is sent at all
    have hend : BigUpload.EndsWith answers progress fileId filename content
        (.error, .start content) := by
      rw [BigUpload.EndsWith, if_pos hname]
    have hlen := congrArg List.length (hlive.accepted _ hend)
    have hpos := partCount_pos hcontent
    rw [List.length_map, List.length_range] at hlen
    exact absurd hlen (Nat.ne_of_lt hpos)
  · have hread := saveBigFilePartStep_read answers progress fileId (fileTotalParts content)
      (s := .start content) rfl hcontent
    obtain ⟨t, ht, q, hq, hdead⟩ := BigUpload.comes_dead_of_label hname (.next .enter hread) rfl
    have halive := hlive.alive t ht q hq
    rw [hdead] at halive
    cases halive

/-- No big file is uploaded from live data. -/
theorem not_uploadsLive (answers : Nat → Tl) (progress : Option (Nat → Int)) (fileId : UInt64)
    (filename content : Bytes) (hbig : 10485760 < content.length)
    (hsize : content.length < 2 ^ 31) :
    ¬ UploadsLive answers progress fileId filename content := by
  have hpos : 0 < content.length := by omega
  exact not_uploadsLive_of_ne_nil (List.length_pos_iff.mp hpos)

end

/-- The smallest big file, all of whose parts are accepted at once. -/
theorem not_uploadsLive_zeros :
    ¬ UploadsLive (fun _ => .object idBoolTrue [] []) none 7 [97] (List.replicate 10485761 0) :=
  not_uploadsLive _ none 7 [97] _ (by rw [List.length_replicate]; decide)
    (by rw [List.length_replicate]; decide)

/-- A big file whose first part is refused once. -/
theorem uploadsLive_counterexample :
    10485760 < (List.replicate 10485761 (1 : UInt8)).length ∧
      ¬ UploadsLive (fun j => if j = 0 then .null else .object idBoolTrue [] []) none 7 [97]
        (List.replicate 10485761 1) := by
  refine ⟨by rw [List.length_replicate]; decide, not_uploadsLive_of_ne_nil ?_⟩
  rw [List.replicate_succ]
  exact List.cons_ne_nil _ _

end Libtg
