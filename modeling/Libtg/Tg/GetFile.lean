import Libtg.Lib.Loop
import Libtg.Tg.Message

/-!
# Downloading a file (`tg/files.c`)

`tg_get_file_with_progress` asks for one part after the other until it has as many bytes as the
caller said. The server and the callback may depend on all requests and files before.
-/

namespace Libtg

open LittleEndian Loop

/-! ## Requests and files -/

def idUploadGetFile : UInt32 := 0xbe5335be
def idUploadFile : UInt32 := 0x096a18d5
def idInputDocumentFileLocation : UInt32 := 0xbad07584

/-- `upload.getFile#be5335be flags:# precise:flags.0?true cdn_supported:flags.1?true
location:InputFileLocation offset:long limit:int = upload.File;`. -/
def uploadGetFile : Entry :=
  ⟨false, "upload_getFile", idUploadGetFile,
    [⟨"flags", none, 0, 0⟩, ⟨"precise", some "true", 1, 0⟩, ⟨"cdn_supported", some "true", 1, 1⟩,
      ⟨"location", some "InputFileLocation", 0, 0⟩, ⟨"offset", some "long", 0, 0⟩,
      ⟨"limit", some "int", 0, 0⟩]⟩

/-- `tl_upload_getFile(NULL, NULL, location, offset, limit)`. -/
def tlUploadGetFile (location : Bytes) (offset : UInt64) (limit : UInt32) : Bytes :=
  layout [vector] uploadGetFile
    [.absent, .absent, .absent, .bytes location, .long offset, .int limit] fun _ => 0

/-- `inputDocumentFileLocation#bad07584 id:long access_hash:long file_reference:bytes
thumb_size:string = InputFileLocation;`. -/
def inputDocumentFileLocation : Entry :=
  ⟨false, "inputDocumentFileLocation", idInputDocumentFileLocation,
    [⟨"id", some "long", 0, 0⟩, ⟨"access_hash", some "long", 0, 0⟩,
      ⟨"file_reference", some "bytes", 0, 0⟩, ⟨"thumb_size", some "string", 0, 0⟩]⟩

/-- `tl_inputDocumentFileLocation`. -/
def tlInputDocumentFileLocation (id accessHash : UInt64) (fileReference thumbSize : Bytes) :
    Bytes :=
  layout [vector] inputDocumentFileLocation
    [.long id, .long accessHash, .bytes fileReference, .bytes thumbSize] fun _ => 0

/-- `tg_file_t`. -/
structure TgFile where
  type : UInt32
  mtime : UInt32
  bytes : Bytes
  deriving DecidableEq

/-- `tg_file_from_tl` on a zeroed structure; the id of a missing type is read from `NULL`, which is
`none`. -/
def tgFileFromTl (tl : Tl) : Option TgFile :=
  if tl.id ≠ idUploadFile then some ⟨0, 0, []⟩
  else
    match (tl.field 0).pointer with
    | .null => none
    | type => some ⟨type.id, (tl.field 1).int?, (tl.field 2).bytes?⟩

/-! ## The download -/

/-- `limit`. -/
def getFileLimit : Nat := 1048576

/-- What the client asked for and was given so far, the latest first, and `offset`, an `int`. -/
structure Download where
  offset : Int
  requests : List Bytes
  files : List TgFile

/-- How `tg_get_file_with_progress` ends: it returns, or divides by zero or reads from `NULL`. -/
inductive Outcome where
  | returns (ret : Int)
  | crash
  deriving DecidableEq

section
variable (server : List Bytes → Tl) (callback : Option (List TgFile → Int)) (location : Bytes)
  (size : Int)

/-- A round of the `while` loop. -/
def getFileStep (s : Download) : Outcome × Download ⊕ Download :=
  if size > 0 ∧ ¬ s.offset < size then .inl (.returns 0, s)
  -- `offset/size` in the `printf`
  else if size = 0 ∨ s.offset = -2 ^ 31 ∧ size = -1 then .inl (.crash, s)
  else
    let getFile := tlUploadGetFile location (UInt64.ofInt s.offset) (UInt32.ofNat getFileLimit)
    let s := { s with requests := getFile :: s.requests }
    match (server s.requests).pointer with
    | .null => .inl (.returns 1, s)
    | tl =>
      if tl.id ≠ idUploadFile then .inl (.returns 1, s)
      else
        match tgFileFromTl tl with
        | none => .inl (.crash, s)
        | some file =>
          let s := { s with offset := (s.offset + file.bytes.length).bmod (2 ^ 32) }
          match callback with
          | none => .inr s
          | some callback =>
            let s := { s with files := file :: s.files }
            if callback s.files ≠ 0 then .inl (.returns 0, s) else .inr s

/-- `tg_get_file_with_progress` ends in this way. -/
def TgGetFileWithProgress (r : Outcome × Download) : Prop :=
  Yields (getFileStep server callback location size) ⟨0, [], []⟩ r

end

/-- `tg_get_document`, its file reference decoded; the size of 64 bits becomes an `int`. -/
def TgGetDocument (server : List Bytes → Tl) (callback : Option (List TgFile → Int))
    (id size accessHash : UInt64) (fileReference : Bytes) : Outcome × Download → Prop :=
  TgGetFileWithProgress server callback (tlInputDocumentFileLocation id accessHash fileReference [])
    ((size.toNat : Int).bmod (2 ^ 32))

/-! ## What the server is asked for -/

/-- The restrictions on a part. -/
structure Allowed (offset limit : Nat) : Prop where
  offset_dvd : 4096 ∣ offset
  limit_dvd : 4096 ∣ limit
  dvd_chunk : limit ∣ 1048576
  same_chunk : offset / 1048576 = (offset + limit - 1) / 1048576

/-- The part of the file from `offset` on. -/
def part (content : Bytes) (offset limit : Nat) : Bytes := (content.drop offset).take limit

/-- To a part that may be asked for, the server answers with it, whatever it was asked before. -/
def Serves (server : List Bytes → Tl) (location content : Bytes) : Prop :=
  ∀ (past : List Bytes) (offset limit : Nat), Allowed offset limit → offset < content.length →
    ∃ b typeId typeBuf typeFields mtime,
      server (tlUploadGetFile location (UInt64.ofNat offset) (UInt32.ofNat limit) :: past) =
        .object idUploadFile b
          [.object typeId typeBuf typeFields, .int mtime, .buf (part content offset limit)]

section
variable {server : List Bytes → Tl} {callback : List TgFile → Int} {location content : Bytes}

/-- What was handed to the callback. -/
def Download.received (s : Download) : Bytes := (s.files.reverse.map TgFile.bytes).flatten

/-- After so many parts: all that was asked for was allowed, and all of it is there. -/
structure Downloading (location content : Bytes) (s : Download) : Prop where
  received_eq : s.received = content.take s.offset.toNat
  offset_eq : ∃ k : Nat, s.offset = min (k * getFileLimit) content.length
  requests : ∀ q ∈ s.requests, ∃ offset limit : Nat, Allowed offset limit ∧
    q = tlUploadGetFile location (UInt64.ofNat offset) (UInt32.ofNat limit)

theorem allowed_of_mul (k : Nat) : Allowed (k * getFileLimit) getFileLimit where
  offset_dvd := Dvd.dvd.mul_left (by decide) k
  limit_dvd := by decide
  dvd_chunk := dvd_rfl
  same_chunk := by
    rw [getFileLimit]
    omega

/-- The offset after a part is the next multiple of the limit, or the end. -/
theorem min_add_part_length (k : Nat) :
    min (k * getFileLimit) content.length +
      (part content (min (k * getFileLimit) content.length) getFileLimit).length =
        min ((k + 1) * getFileLimit) content.length := by
  rw [part, List.length_take, List.length_drop, getFileLimit]
  omega

theorem take_append_part (offset limit : Nat) :
    content.take offset ++ part content offset limit =
      content.take (offset + (part content offset limit).length) := by
  rw [List.take_add, part, List.length_take, ← List.take_eq_take_min]

/-- A round that is answered with a file. -/
theorem getFileStep_file {size : Int} {s : Download} {b typeBuf bytes : Bytes}
    {typeId mtime : UInt32} {typeFields : List Tl} (hsize : 0 < size) (hlt : s.offset < size)
    (hcallback : ∀ files, callback files = 0)
    (hserver : server (tlUploadGetFile location (UInt64.ofInt s.offset)
        (UInt32.ofNat getFileLimit) :: s.requests) =
      .object idUploadFile b [.object typeId typeBuf typeFields, .int mtime, .buf bytes]) :
    getFileStep server (some callback) location size s =
      .inr ⟨(s.offset + bytes.length).bmod (2 ^ 32),
        tlUploadGetFile location (UInt64.ofInt s.offset) (UInt32.ofNat getFileLimit) :: s.requests,
        ⟨typeId, mtime, bytes⟩ :: s.files⟩ := by
  have hgo : ¬ (size > 0 ∧ ¬ s.offset < size) := fun h => h.2 hlt
  have hdiv : ¬ (size = 0 ∨ s.offset = -2 ^ 31 ∧ size = -1) := by omega
  rw [getFileStep, if_neg hgo, if_neg hdiv]
  simp [hserver, Tl.pointer, Tl.id, Tl.field, Tl.int?, Tl.bytes?, tgFileFromTl, hcallback]

/-- A round in the middle of the file asks for the next part and hands it over. -/
theorem getFileStep_next {s : Download} (hlen : content.length < 2 ^ 31)
    (hserver : Serves server location content) (hcallback : ∀ files, callback files = 0)
    (hs : Downloading location content s) (hlt : s.offset < content.length) :
    ∃ t, getFileStep server (some callback) location content.length s = .inr t ∧
      Downloading location content t ∧ s.offset < t.offset := by
  obtain ⟨k, hk⟩ := hs.offset_eq
  have hoffset : s.offset = ((k * getFileLimit : Nat) : Int) := by omega
  have hend : min (k * getFileLimit) content.length + _ = _ := min_add_part_length k
  have hmin : min (k * getFileLimit) content.length = k * getFileLimit := by omega
  have hcast : UInt64.ofInt s.offset = UInt64.ofNat (k * getFileLimit) := by
    have hmod : ((k * getFileLimit : Nat) : Int) % 2 ^ 64 = (k * getFileLimit : Nat) := by omega
    rw [hoffset, UInt64.ofInt, hmod, Int.toNat_natCast]
  obtain ⟨b, typeId, typeBuf, typeFields, mtime, hanswer⟩ :=
    hserver s.requests (k * getFileLimit) getFileLimit (allowed_of_mul k) (by omega)
  have hnew : (s.offset + (part content (k * getFileLimit) getFileLimit).length).bmod (2 ^ 32) =
      min ((k + 1) * getFileLimit) content.length := by
    rw [hmin] at hend
    rw [hoffset, Int.bmod_eq_of_le_mul_two] <;> omega
  refine ⟨_, getFileStep_file (by omega) hlt hcallback (hcast ▸ hanswer),
    ⟨?_, ⟨k + 1, hnew⟩, ?_⟩, ?_⟩
  · have hreceived := hs.received_eq
    rw [Download.received, hoffset, Int.toNat_natCast] at hreceived
    rw [Download.received, List.reverse_cons, List.map_append, List.flatten_append, hreceived, hnew,
      Int.toNat_natCast, ← hend, hmin]
    exact (congrArg _ (List.append_nil _)).trans (take_append_part _ _)
  · exact List.forall_mem_cons.mpr ⟨⟨_, _, allowed_of_mul k, hcast ▸ rfl⟩, hs.requests⟩
  · have hlimit : (k + 1) * getFileLimit = k * getFileLimit + 1048576 := Nat.succ_mul _ _
    show s.offset < Int.bmod _ _
    omega

theorem tgGetFileWithProgress_downloads (hpos : 0 < content.length)
    (hlen : content.length < 2 ^ 31) (hserver : Serves server location content)
    (hcallback : ∀ files, callback files = 0) :
    ∃ s, TgGetFileWithProgress server (some callback) location content.length (.returns 0, s) ∧
      s.received = content ∧ Downloading location content s := by
  have hstart : Downloading location content ⟨0, [], []⟩ := by
    refine ⟨rfl, ⟨0, ?_⟩, List.forall_mem_nil _⟩
    rw [Nat.zero_mul, Nat.zero_min]
    rfl
  have hround : ∀ s, Downloading location content s →
      (∃ r, getFileStep server (some callback) location content.length s = .inl r ∧
        r.1 = .returns 0 ∧ r.2.received = content ∧ Downloading location content r.2) ∨
      ∃ t, getFileStep server (some callback) location content.length s = .inr t ∧
        Downloading location content t ∧
        content.length - t.offset.toNat < content.length - s.offset.toNat := by
    intro s hs
    obtain ⟨k, hk⟩ := hs.offset_eq
    by_cases hlt : s.offset < content.length
    · obtain ⟨t, hnext, ht, hgrows⟩ := getFileStep_next hlen hserver hcallback hs hlt
      exact .inr ⟨t, hnext, ht, by omega⟩
    · have hdone : (content.length : Int) > 0 ∧ ¬ s.offset < content.length := ⟨by omega, hlt⟩
      refine .inl ⟨(.returns 0, s), by rw [getFileStep, if_pos hdone], rfl, ?_, hs⟩
      rw [hs.received_eq, List.take_of_length_le]
      omega
  obtain ⟨⟨out, s⟩, hyields, rfl, hreceived, hs⟩ := yields_of_measure _ hround hstart
  exact ⟨s, hyields, hreceived, hs⟩

/-- The parts are the file, in order, and no part was asked for that may not be asked for. -/
theorem tgGetFileWithProgress_content (hpos : 0 < content.length) (hlen : content.length < 2 ^ 31)
    (hserver : Serves server location content) (hcallback : ∀ files, callback files = 0) :
    ∃ s, TgGetFileWithProgress server (some callback) location content.length (.returns 0, s) ∧
      s.received = content ∧ ∀ q ∈ s.requests, ∃ offset limit : Nat, Allowed offset limit ∧
        q = tlUploadGetFile location (UInt64.ofNat offset) (UInt32.ofNat limit) := by
  obtain ⟨s, hyields, hreceived, hs⟩ :=
    tgGetFileWithProgress_downloads hpos hlen hserver hcallback
  exact ⟨s, hyields, hreceived, hs.requests⟩

/-- `tg_get_document` hands over the document. -/
theorem tgGetDocument_content {id accessHash : UInt64} {fileReference : Bytes}
    (hpos : 0 < content.length) (hlen : content.length < 2 ^ 31)
    (hserver : Serves server (tlInputDocumentFileLocation id accessHash fileReference []) content)
    (hcallback : ∀ files, callback files = 0) :
    ∃ s, TgGetDocument server (some callback) id (UInt64.ofNat content.length) accessHash
      fileReference (.returns 0, s) ∧ s.received = content := by
  have hsize : ((UInt64.ofNat content.length).toNat : Int).bmod (2 ^ 32) = content.length := by
    rw [UInt64.toNat_ofNat', Int.bmod_eq_of_le_mul_two] <;> omega
  obtain ⟨s, hs, hreceived, -⟩ := tgGetFileWithProgress_downloads hpos hlen hserver hcallback
  refine ⟨s, ?_, hreceived⟩
  rw [TgGetDocument, hsize]
  exact hs

end

/-- The storage type of a file the server does not name. -/
def idStorageFileUnknown : UInt32 := 0xaa963b05

theorem tlUploadGetFile_eq (location : Bytes) (offset : UInt64) (limit : UInt32) :
    tlUploadGetFile location offset limit =
      le32 idUploadGetFile ++ le32 0 ++ location ++ le64 offset ++ le32 limit := by
  have hflags : (strstr ['f', 'l', 'a', 'g', 's'] ['f', 'l', 'a', 'g', 's']).isSome := by decide
  have htrue : tyOf "true" = .true := by decide
  have hlocation : tyOf "InputFileLocation" = .object := by decide
  have hlong : tyOf "long" = .long := by decide
  have hint : tyOf "int" = .int := by decide
  simp [tlUploadGetFile, layout, uploadGetFile, segs, seg, Backpatch.Seg.render, Arg.isFlags,
    argPieces, hflags, htrue, hlocation, hlong, hint, pieces]

/-- A server that looks up the offset and the limit at the end of the request. -/
def fileServer (content : Bytes) : List Bytes → Tl
  | [] => .null
  | q :: _ =>
    let offset := get64 ((q.drop (q.length - 12)).take 8)
    let limit := get32 (q.drop (q.length - 4))
    .object idUploadFile [] [.object idStorageFileUnknown [] [], .int 0,
      .buf (part content offset.toNat limit.toNat)]

theorem serves_fileServer {content : Bytes} (h : content.length < 2 ^ 31) (location : Bytes) :
    Serves (fileServer content) location content := by
  intro past offset limit hallowed hoffset
  have hlimit : limit ≤ 1048576 := Nat.le_of_dvd (by decide) hallowed.dvd_chunk
  have hoffset' : (UInt64.ofNat offset).toNat = offset := by
    rw [UInt64.toNat_ofNat']
    omega
  have hlimit' : (UInt32.ofNat limit).toNat = limit := by
    rw [UInt32.toNat_ofNat']
    omega
  generalize hq : tlUploadGetFile location (UInt64.ofNat offset) (UInt32.ofNat limit) = q
  obtain ⟨p, hp, hlen⟩ : ∃ p, q = p ++ (le64 (UInt64.ofNat offset) ++ le32 (UInt32.ofNat limit)) ∧
      q.length = p.length + 12 := by
    refine ⟨le32 idUploadGetFile ++ le32 0 ++ location, ?_, ?_⟩
    · rw [← hq, tlUploadGetFile_eq, List.append_assoc _ (le64 _)]
    · rw [← hq, tlUploadGetFile_eq, List.length_append, List.length_append]
      rfl
  have hfirst : (q.drop (q.length - 12)).take 8 = le64 (UInt64.ofNat offset) := by
    rw [hlen, Nat.add_sub_cancel, hp, List.drop_left, List.take_left' (le64_length _)]
  have hlast : q.drop (q.length - 4) = le32 (UInt32.ofNat limit) := by
    have hsub : q.length - 4 = p.length + 8 := by omega
    rw [hsub, hp, ← List.append_assoc, List.drop_left' (by simp)]
  refine ⟨[], idStorageFileUnknown, [], [], 0, ?_⟩
  rw [fileServer, hfirst, hlast, get64_le64, get32_le32, hoffset', hlimit']

/-- A file of three bytes is one part. -/
theorem tgGetFileWithProgress_three :
    ∃ s, TgGetFileWithProgress (fileServer [1, 2, 3]) (some fun _ => 0) [] 3 (.returns 0, s) ∧
      s.received = [1, 2, 3] ∧ ∀ q ∈ s.requests, ∃ offset limit : Nat, Allowed offset limit ∧
        q = tlUploadGetFile [] (UInt64.ofNat offset) (UInt32.ofNat limit) :=
  tgGetFileWithProgress_content (by decide) (by decide) (serves_fileServer (by decide) [])
    fun _ => rfl

end Libtg
