import Libtg.Tg.GetFile

/-!
# Uploading a file (`tg/files.c`)

`tg_document_send` reads the file part by part and sends a part again until it is accepted. This is
its branch for files of at most 10 MB, up to the `inputFile` the media are then made of. The server
may depend on all requests before.
-/

namespace Libtg

open Loop

def idBoolTrue : UInt32 := 0x997275b5
def idUploadSaveFilePart : UInt32 := 0xb304a621
def idInputFile : UInt32 := 0xf52ff27f

/-- `upload.saveFilePart#b304a621 file_id:long file_part:int bytes:bytes = Bool;`. -/
def uploadSaveFilePart : Entry :=
  ⟨false, "upload_saveFilePart", idUploadSaveFilePart,
    [⟨"file_id", some "long", 0, 0⟩, ⟨"file_part", some "int", 0, 0⟩,
      ⟨"bytes", some "bytes", 0, 0⟩]⟩

/-- `tl_upload_saveFilePart`. -/
def tlUploadSaveFilePart (fileId : UInt64) (filePart : UInt32) (bytes : Bytes) : Bytes :=
  layout [vector] uploadSaveFilePart [.long fileId, .int filePart, .bytes bytes] fun _ => 0

/-- `inputFile#f52ff27f id:long parts:int name:string md5_checksum:string = InputFile;`. -/
def inputFile : Entry :=
  ⟨false, "inputFile", idInputFile,
    [⟨"id", some "long", 0, 0⟩, ⟨"parts", some "int", 0, 0⟩, ⟨"name", some "string", 0, 0⟩,
      ⟨"md5_checksum", some "string", 0, 0⟩]⟩

/-- `tl_inputFile`. -/
def tlInputFile (id : UInt64) (parts : UInt32) (name md5Checksum : Bytes) : Bytes :=
  layout [vector] inputFile [.long id, .int parts, .bytes name, .bytes md5Checksum] fun _ => 0

/-! ## The upload -/

/-- `part_size`. -/
def partSize : Nat := 524288

/-- `rest` is what `fread` has not read yet, `bytes` the part at the label the `goto` goes back to,
and `requests` what the server was sent, the latest first. -/
structure Upload where
  rest : Bytes
  bytes : Option Bytes
  buf : Bytes
  filePart : UInt32
  retry : Int
  requests : List Bytes

/-- `fread` and what is done once for a part, or one sending of it. After ten refusals the retrying
is only reported. -/
def saveFilePartStep (server : List Bytes → Tl) (fileId : UInt64) (s : Upload) : Upload ⊕ Upload :=
  match s.bytes with
  | none =>
    let bytes := s.rest.take partSize
    if bytes.length > 0 then
      .inr { s with rest := s.rest.drop partSize, bytes := some bytes, buf := s.buf ++ bytes }
    else .inl s
  | some bytes =>
    let requests := tlUploadSaveFilePart fileId s.filePart bytes :: s.requests
    if (server requests).id ≠ idBoolTrue then
      .inr { s with retry := (s.retry + 1).bmod (2 ^ 32), requests := requests }
    else .inr { s with bytes := none, filePart := s.filePart + 1, requests := requests }

/-- `"%02x"`. -/
def hex (b : UInt8) : Bytes :=
  let digit (n : Nat) : UInt8 := UInt8.ofNat (if n < 10 then 0x30 + n else 0x57 + n)
  [digit (b.toNat / 16), digit (b.toNat % 16)]

/-- The checksum in the `inputFile`. -/
def md5Checksum (md5 : Bytes → Bytes) (buf : Bytes) : Bytes := (md5 buf).flatMap hex

/-- `tg_document_send` of a file of at most 10 MB comes to the end of its loop in this state, and
goes on with this `inputFile`. -/
def TgDocumentSend (server : List Bytes → Tl) (md5 : Bytes → Bytes) (fileId : UInt64)
    (filename content : Bytes) (r : Upload × Bytes) : Prop :=
  content.length ≤ 10485760 ∧
    Yields (saveFilePartStep server fileId) ⟨content, none, [], 0, 0, []⟩ r.1 ∧
    r.2 = tlInputFile fileId r.1.filePart filename (md5Checksum md5 r.1.buf)

/-! ## What is accepted -/

/-- The accepted ones of these requests, the first in front. -/
def accepted (server : List Bytes → Tl) : List Bytes → List Bytes
  | [] => []
  | q :: past =>
    accepted server past ++ if (server (q :: past)).id = idBoolTrue then [q] else []

/-- No part is refused for ever. -/
def AcceptsAtLast (server : List Bytes → Tl) (fileId : UInt64) : Prop :=
  ∀ (past : List Bytes) (filePart : UInt32) (bytes : Bytes), ∃ n,
    (server (List.replicate (n + 1) (tlUploadSaveFilePart fileId filePart bytes) ++ past)).id =
      idBoolTrue

/-- The number of parts. -/
def partCount (content : Bytes) : Nat := (content.length + (partSize - 1)) / partSize

/-- The parts from the first one on. -/
def savedParts (fileId : UInt64) (content : Bytes) (n : Nat) : List Bytes :=
  (List.range n).map fun i =>
    tlUploadSaveFilePart fileId (UInt32.ofNat i) (part content (i * partSize) partSize)

section
variable {server : List Bytes → Tl} {md5 : Bytes → Bytes} {fileId : UInt64}
  {filename content : Bytes} {s : Upload}

/-- After `k` parts, before `fread`. -/
structure Uploading (server : List Bytes → Tl) (fileId : UInt64) (content : Bytes) (k : Nat)
    (s : Upload) : Prop where
  bytes : s.bytes = none
  buf : s.buf = content.take (k * partSize)
  rest : s.rest = content.drop (k * partSize)
  filePart : s.filePart = UInt32.ofNat k
  accepted : accepted server s.requests = savedParts fileId content k

theorem saveFilePartStep_accepted {bytes : Bytes} (hbytes : s.bytes = some bytes)
    (h : (server (tlUploadSaveFilePart fileId s.filePart bytes :: s.requests)).id = idBoolTrue) :
    saveFilePartStep server fileId s =
      .inr { s with
        bytes := none
        filePart := s.filePart + 1
        requests := tlUploadSaveFilePart fileId s.filePart bytes :: s.requests } := by
  simp [saveFilePartStep, hbytes, h]

theorem saveFilePartStep_refused {bytes : Bytes} (hbytes : s.bytes = some bytes)
    (h : (server (tlUploadSaveFilePart fileId s.filePart bytes :: s.requests)).id ≠ idBoolTrue) :
    saveFilePartStep server fileId s =
      .inr { s with
        retry := (s.retry + 1).bmod (2 ^ 32)
        requests := tlUploadSaveFilePart fileId s.filePart bytes :: s.requests } := by
  simp [saveFilePartStep, hbytes, h]

/-- A part at the label is accepted once, after the refusals. -/
theorem yields_accepted (haccepts : AcceptsAtLast server fileId) {bytes : Bytes}
    (hbytes : s.bytes = some bytes) : ∃ t : Upload,
      (∀ r, Yields (saveFilePartStep server fileId) s r ↔
        Yields (saveFilePartStep server fileId) t r) ∧
      t.rest = s.rest ∧ t.bytes = none ∧ t.buf = s.buf ∧ t.filePart = s.filePart + 1 ∧
      accepted server t.requests =
        accepted server s.requests ++ [tlUploadSaveFilePart fileId s.filePart bytes] := by
  obtain ⟨n, hn⟩ := haccepts s.requests s.filePart bytes
  induction n generalizing s with
  | zero =>
    have h : (server (tlUploadSaveFilePart fileId s.filePart bytes :: s.requests)).id =
        idBoolTrue := hn
    refine ⟨_, fun r => yields_next (saveFilePartStep_accepted hbytes h), rfl, rfl, rfl, rfl, ?_⟩
    rw [accepted, if_pos h]
  | succ n ih =>
    by_cases h : (server (tlUploadSaveFilePart fileId s.filePart bytes :: s.requests)).id =
        idBoolTrue
    · refine ⟨_, fun r => yields_next (saveFilePartStep_accepted hbytes h), rfl, rfl, rfl, rfl, ?_⟩
      rw [accepted, if_pos h]
    · -- the same part again, behind one more refusal
      rw [List.replicate_succ', List.append_assoc] at hn
      obtain ⟨t, hyields, hrest, hnone, hbuf, hpart, haccepted⟩ :=
        ih (s := { s with
          retry := (s.retry + 1).bmod (2 ^ 32)
          requests := tlUploadSaveFilePart fileId s.filePart bytes :: s.requests }) hbytes hn
      refine ⟨t, fun r => ?_, hrest, hnone, hbuf, hpart, ?_⟩
      · exact (yields_next (saveFilePartStep_refused hbytes h)).trans (hyields r)
      · rw [haccepted, accepted, if_neg h, List.append_nil]

theorem saveFilePartStep_read (hbytes : s.bytes = none) (hrest : s.rest ≠ []) :
    saveFilePartStep server fileId s =
      .inr { s with
        rest := s.rest.drop partSize
        bytes := some (s.rest.take partSize)
        buf := s.buf ++ s.rest.take partSize } := by
  have hlen : (s.rest.take partSize).length > 0 := by
    rw [List.length_take, partSize]
    have := List.length_pos_iff.mpr hrest
    omega
  simp only [saveFilePartStep, hbytes, if_pos hlen]

theorem saveFilePartStep_end (hbytes : s.bytes = none) (hrest : s.rest = []) :
    saveFilePartStep server fileId s = .inl s := by
  simp [saveFilePartStep, hbytes, hrest]

theorem savedParts_succ (fileId : UInt64) (content : Bytes) (k : Nat) :
    savedParts fileId content (k + 1) = savedParts fileId content k ++
      [tlUploadSaveFilePart fileId (UInt32.ofNat k) (part content (k * partSize) partSize)] := by
  rw [savedParts, List.range_succ, List.map_append]
  rfl

/-- From one part to the next. -/
theorem Uploading.next (haccepts : AcceptsAtLast server fileId) {k : Nat}
    (h : Uploading server fileId content k s) (hlt : k * partSize < content.length) :
    ∃ t, (∀ r, Yields (saveFilePartStep server fileId) s r ↔
        Yields (saveFilePartStep server fileId) t r) ∧
      Uploading server fileId content (k + 1) t := by
  have hrest : s.rest ≠ [] := by
    rw [h.rest]
    exact fun hnil => absurd (List.drop_eq_nil_iff.mp hnil) (Nat.not_le.mpr hlt)
  have hread : saveFilePartStep server fileId s = _ := saveFilePartStep_read h.bytes hrest
  obtain ⟨t, hyields, htrest, htbytes, htbuf, htpart, htaccepted⟩ := yields_accepted haccepts
    (s := { s with
      rest := s.rest.drop partSize
      bytes := some (s.rest.take partSize)
      buf := s.buf ++ s.rest.take partSize }) rfl
  refine ⟨t, fun r => (yields_next hread).trans (hyields r), htbytes, ?_, ?_, ?_, ?_⟩
  · rw [htbuf, h.buf, h.rest, Nat.succ_mul, List.take_add]
  · rw [htrest, h.rest, List.drop_drop, Nat.succ_mul]
  · rw [htpart, h.filePart, UInt32.ofNat_add]
    rfl
  · rw [htaccepted, h.accepted, h.filePart, h.rest, savedParts_succ]
    rfl

theorem Uploading.yields (haccepts : AcceptsAtLast server fileId) {k : Nat}
    (h : Uploading server fileId content k s) (hk : k ≤ partCount content) :
    ∃ t, Yields (saveFilePartStep server fileId) s t ∧
      Uploading server fileId content (partCount content) t := by
  induction hn : partCount content - k generalizing k s with
  | zero =>
    obtain rfl : k = partCount content := by omega
    have hall : content.length ≤ partCount content * partSize := by
      rw [partCount, partSize]
      omega
    have hrest : s.rest = [] := h.rest.trans (List.drop_of_length_le hall)
    exact ⟨s, (yields_leave (saveFilePartStep_end h.bytes hrest)).mpr rfl, h⟩
  | succ n ih =>
    have hlt : k * partSize < content.length := by
      rw [partCount, partSize] at hn
      rw [partSize]
      omega
    obtain ⟨t, hyields, ht⟩ := h.next haccepts hlt
    obtain ⟨u, hu, hend⟩ := ih ht (by omega) (by omega)
    exact ⟨u, (hyields u).mpr hu, hend⟩

theorem parts_flatten (content : Bytes) (k : Nat) :
    ((List.range k).map fun i => part content (i * partSize) partSize).flatten =
      content.take (k * partSize) := by
  induction k with
  | zero => rfl
  | succ k ih =>
    rw [List.range_succ, List.map_append, List.flatten_append, ih, Nat.succ_mul, List.take_add]
    exact congrArg _ (List.append_nil _)

end

/-- A server that accepts what it was sent just before. -/
def secondTime : List Bytes → Tl
  | q :: q' :: _ => if q = q' then .object idBoolTrue [] [] else .null
  | _ => .null

theorem acceptsAtLast_secondTime (fileId : UInt64) : AcceptsAtLast secondTime fileId :=
  fun _ _ _ => ⟨1, congrArg Tl.id (if_pos rfl)⟩

end Libtg
