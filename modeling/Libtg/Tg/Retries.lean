import Libtg.Lib.Retry
import Libtg.Tg.BigUpload

/-!
# How often a part is sent again (`tg/files.c`)

Both loops of `tg_document_send` go back to a label until the part is accepted. Here they are the
attempts of `Retry`, for any answers in order: how many attempts there are depends on the answers
only, and after ten refusals nothing stops them.
-/

namespace Libtg

open Loop Retry

/-! ## What is asked of the retries -/

/-- The attempt of this number is accepted. -/
def Accepts (answers : Nat → Tl) (j : Nat) : Prop := (answers j).id = idBoolTrue

instance (answers : Nat → Tl) : DecidablePred (Accepts answers) := fun _ =>
  inferInstanceAs (Decidable (_ = _))

section
variable (answers : Nat → Tl) (progress : Option (Nat → Int)) (fileId : UInt64)
  (filename content : Bytes)

/-- The upload in `tg_document_send` ends in this way, with these requests, the latest first. -/
inductive DocumentSends : SendEnd → List Bytes → Prop
  | big {e : SendEnd} {s : BigUpload} (hsize : fileSize content > 10485760)
      (hs : BigUpload.EndsWith answers progress fileId filename content (e, s)) :
      DocumentSends e (s.sent.map SentBlock.query)
  | small {s : Upload} (hsize : ¬ fileSize content > 10485760)
      (hs : Yields (saveFilePartStep (inOrder answers) fileId) ⟨content, none, [], 0, 0, []⟩ s) :
      DocumentSends .media s.requests

/-- The request for a part, by its number. -/
def partRequest (filePart : UInt32) (bytes : Bytes) : Bytes :=
  if fileSize content > 10485760 then
    tlUploadSaveBigFilePart fileId filePart (fileTotalParts content) bytes
  else tlUploadSaveFilePart fileId filePart bytes

/-- The requests for the first parts. -/
def partRequests (n : Nat) : List Bytes :=
  (List.range n).map fun i =>
    partRequest fileId content (UInt32.ofNat i) (part content (i * partSize) partSize)

/-- The retries are bounded: the upload ends, no attempt is made after ten refusals, ten refusals
are an error, and the media are sent only if every part was accepted. -/
structure RetriesBounded : Prop where
  ends : ∃ e requests, DocumentSends answers progress fileId filename content e requests
  bounded : ∀ e requests, DocumentSends answers progress fileId filename content e requests →
    ∀ j < requests.length, Nat.count (¬ Accepts answers ·) j < 10
  gives_up : ∀ e requests, DocumentSends answers progress fileId filename content e requests →
    Nat.count (¬ Accepts answers ·) requests.length = 10 → e = .error
  media : ∀ requests, DocumentSends answers progress fileId filename content .media requests →
    accepted (inOrder answers) requests = partRequests fileId content (partCount content)

end

/-- `progress` cancels the upload at this call. -/
def cancels (progress : Option (Nat → Int)) (k : Nat) : Bool := progress.any fun f => f k ≠ 0

/-- The parts that have to be accepted: all of them, or those up to the one after which a big file
is cancelled. -/
def partsNeeded (progress : Option (Nat → Int)) (filename content : Bytes) : Nat :=
  if fileSize content > 10485760 then
    if filename.headD 0 = 0 then 0
    else min (partCount content) ((List.range (partCount content)).findIdx (cancels progress) + 1)
  else partCount content

/-! ## From one attempt to the next -/

section
variable {answers : Nat → Tl} {progress : Option (Nat → Int)} {fileId : UInt64}
  {filename content : Bytes} {encode : UInt32 → Bytes → Bytes} {s t : Upload} {j : Nat}

/-- At the label, before this attempt. -/
structure Sending (answers : Nat → Tl) (encode : UInt32 → Bytes → Bytes)
    (content : Bytes) (j : Nat) (s : Upload) : Prop where
  attempts : s.requests.length = j
  bytes : s.bytes = some (part content (Nat.count (Accepts answers) j * partSize) partSize)
  rest : s.rest = content.drop ((Nat.count (Accepts answers) j + 1) * partSize)
  filePart : s.filePart = UInt32.ofNat (Nat.count (Accepts answers) j)
  accepted : accepted (inOrder answers) s.requests =
    (List.range (Nat.count (Accepts answers) j)).map fun i =>
      encode (UInt32.ofNat i) (part content (i * partSize) partSize)

/-- The request of the attempt. -/
def Upload.request (encode : UInt32 → Bytes → Bytes) (s : Upload) : Bytes :=
  encode s.filePart (s.bytes.getD [])

theorem Upload.request_of_bytes {bytes : Bytes} (h : s.bytes = some bytes) :
    s.request encode = encode s.filePart bytes := by
  rw [Upload.request, h, Option.getD_some]

theorem inOrder_cons (answers : Nat → Tl) (q : Bytes) (past : List Bytes) :
    inOrder answers (q :: past) = answers past.length := rfl

theorem Sending.refused (h : Sending answers encode content j s) (hno : ¬ Accepts answers j)
    (hrest : t.rest = s.rest) (hbytes : t.bytes = s.bytes) (hpart : t.filePart = s.filePart)
    (hrequests : t.requests = s.request encode :: s.requests) :
    Sending answers encode content (j + 1) t := by
  have hcount : Nat.count (Accepts answers) (j + 1) = Nat.count (Accepts answers) j :=
    Nat.count_succ_eq_count_iff.mpr hno
  have hid : (answers j).id ≠ idBoolTrue := hno
  refine ⟨?_, ?_, ?_, ?_, ?_⟩
  · rw [hrequests, List.length_cons, h.attempts]
  · rw [hbytes, h.bytes, hcount]
  · rw [hrest, h.rest, hcount]
  · rw [hpart, h.filePart, hcount]
  · rw [hrequests, Libtg.accepted, inOrder_cons, h.attempts, if_neg hid, List.append_nil,
      h.accepted, hcount]

/-- What is accepted after the attempt, if it is. -/
theorem Sending.accepted_succ (h : Sending answers encode content j s) (hok : Accepts answers j) :
    Libtg.accepted (inOrder answers) (s.request encode :: s.requests) =
      (List.range (Nat.count (Accepts answers) (j + 1))).map fun i =>
        encode (UInt32.ofNat i) (part content (i * partSize) partSize) := by
  have hcount : Nat.count (Accepts answers) (j + 1) = Nat.count (Accepts answers) j + 1 :=
    Nat.count_succ_eq_succ_count_iff.mpr hok
  have hid : (answers j).id = idBoolTrue := hok
  rw [Libtg.accepted, inOrder_cons, h.attempts, if_pos hid, h.accepted, hcount, List.range_succ,
    List.map_append, List.map_singleton, Upload.request_of_bytes h.bytes, h.filePart]

/-- After the part is accepted, the next one is read. -/
theorem Sending.read (h : Sending answers encode content j s) (hok : Accepts answers j)
    (hrest : t.rest = s.rest.drop partSize) (hbytes : t.bytes = some (s.rest.take partSize))
    (hpart : t.filePart = s.filePart + 1)
    (hrequests : t.requests = s.request encode :: s.requests) :
    Sending answers encode content (j + 1) t := by
  have hcount : Nat.count (Accepts answers) (j + 1) = Nat.count (Accepts answers) j + 1 :=
    Nat.count_succ_eq_succ_count_iff.mpr hok
  refine ⟨?_, ?_, ?_, ?_, ?_⟩
  · rw [hrequests, List.length_cons, h.attempts]
  · rw [hbytes, h.rest, hcount, part]
  · rw [hrest, h.rest, hcount, List.drop_drop, Nat.succ_mul (Nat.count _ j + 1)]
  · rw [hpart, h.filePart, hcount, UInt32.ofNat_add]
    rfl
  · rw [hrequests, h.accepted_succ hok]

/-- The first part is read. -/
theorem sending_start : Sending answers encode content 0
    ⟨content.drop partSize, some (content.take partSize), content.take partSize, 0, 0, []⟩ := by
  refine ⟨rfl, ?_, ?_, rfl, rfl⟩
  · rw [Nat.count_zero, Nat.zero_mul, part, List.drop_zero]
  · rw [Nat.count_zero, Nat.zero_add, Nat.one_mul]

theorem Sending.rest_eq_nil_iff (h : Sending answers encode content j s) :
    s.rest = [] ↔ partCount content ≤ Nat.count (Accepts answers) j + 1 := by
  rw [h.rest, List.drop_eq_nil_iff, partCount, partSize]
  omega

end

/-! ## Small files -/

section
variable {answers : Nat → Tl} {fileId : UInt64} {content : Bytes} {s : Upload} {j m : Nat}

/-- Before an attempt that is still needed. -/
def SendingSmall (answers : Nat → Tl) (fileId : UInt64) (content : Bytes) (s : Upload) (j : Nat) :
    Prop :=
  Sending answers (tlUploadSaveFilePart fileId) content j s ∧
    ∀ i ≤ j, Nat.count (Accepts answers) i < partCount content

/-- All parts are accepted, after so many attempts. -/
def SentSmall (answers : Nat → Tl) (fileId : UInt64) (content : Bytes) (s : Upload) (m : Nat) :
    Prop :=
  s.requests.length = m ∧
    accepted (inOrder answers) s.requests = savedParts fileId content (partCount content)

theorem Sending.small_accepted (h : Sending answers (tlUploadSaveFilePart fileId) content j s)
    (hok : Accepts answers j) :
    saveFilePartStep (inOrder answers) fileId s =
      .inr { s with
        bytes := none
        filePart := s.filePart + 1
        requests := s.request (tlUploadSaveFilePart fileId) :: s.requests } := by
  have hbytes := h.bytes
  generalize part content _ partSize = bytes at hbytes
  have hid : (inOrder answers (tlUploadSaveFilePart fileId s.filePart bytes :: s.requests)).id =
      idBoolTrue := by
    rw [inOrder_cons, h.attempts]
    exact hok
  rw [saveFilePartStep_accepted hbytes hid, Upload.request_of_bytes hbytes]

theorem Sending.small_refused (h : Sending answers (tlUploadSaveFilePart fileId) content j s)
    (hno : ¬ Accepts answers j) :
    saveFilePartStep (inOrder answers) fileId s =
      .inr { s with
        retry := (s.retry + 1).bmod (2 ^ 32)
        requests := s.request (tlUploadSaveFilePart fileId) :: s.requests } := by
  have hbytes := h.bytes
  generalize part content _ partSize = bytes at hbytes
  have hid : (inOrder answers (tlUploadSaveFilePart fileId s.filePart bytes :: s.requests)).id ≠
      idBoolTrue := by
    rw [inOrder_cons, h.attempts]
    exact hno
  rw [saveFilePartStep_refused hbytes hid, Upload.request_of_bytes hbytes]

theorem simulates_small : Simulates (saveFilePartStep (inOrder answers) fileId)
    (attempt (Accepts answers) (partCount content)) (SendingSmall answers fileId content)
    (SentSmall answers fileId content) where
  leave s j m h hstep := by
    obtain ⟨h, hneeded⟩ := h
    obtain ⟨hlast, rfl⟩ := attempt_eq_inl_iff.mp hstep
    obtain ⟨hok, hcount⟩ := ok_of_count (hneeded j (Nat.le_refl j)) hlast
    have hrest := h.rest_eq_nil_iff.mpr hcount.ge
    have hend : saveFilePartStep (inOrder answers) fileId
        { s with
          bytes := none
          filePart := s.filePart + 1
          requests := s.request (tlUploadSaveFilePart fileId) :: s.requests } = _ :=
      saveFilePartStep_end rfl hrest
    refine ⟨_, (yields_next (h.small_accepted hok)).mpr ((yields_leave hend).mpr rfl), ?_, ?_⟩
    · exact congrArg Nat.succ h.attempts
    · rw [savedParts, ← hlast]
      exact h.accepted_succ hok
  next s j k h hstep := by
    obtain ⟨h, hneeded⟩ := h
    obtain ⟨hne, rfl⟩ := attempt_eq_inr_iff.mp hstep
    have hneeded' := count_lt_succ hneeded hne
    by_cases hok : Accepts answers j
    · have hless := hneeded' (j + 1) (Nat.le_refl _)
      rw [Nat.count_succ_eq_succ_count_iff.mpr hok] at hless
      have hrest : s.rest ≠ [] := fun hnil => absurd (h.rest_eq_nil_iff.mp hnil) (by omega)
      have hread : saveFilePartStep (inOrder answers) fileId
          { s with
            bytes := none
            filePart := s.filePart + 1
            requests := s.request (tlUploadSaveFilePart fileId) :: s.requests } = _ :=
        saveFilePartStep_read rfl hrest
      exact ⟨_, .tail (.single (h.small_accepted hok)) hread, h.read hok rfl rfl rfl rfl, hneeded'⟩
    · exact ⟨_, .single (h.small_refused hok), h.refused hok rfl rfl rfl rfl, hneeded'⟩

/-- A small file is sent in as many attempts as it takes to have all parts accepted. -/
theorem small_ends {s : Upload}
    (h : Yields (saveFilePartStep (inOrder answers) fileId) ⟨content, none, [], 0, 0, []⟩ s) :
    Ends (Accepts answers) (partCount content) s.requests.length ∧
      accepted (inOrder answers) s.requests = savedParts fileId content (partCount content) := by
  by_cases hcontent : content = []
  · rw [yields_leave (saveFilePartStep_end rfl hcontent)] at h
    subst h hcontent
    exact ⟨⟨rfl, fun j hj => absurd hj (Nat.not_lt_zero j)⟩, rfl⟩
  · rw [yields_next (saveFilePartStep_read rfl hcontent)] at h
    have hneeded : ∀ i ≤ 0, Nat.count (Accepts answers) i < partCount content := by
      intro i hi
      rw [Nat.le_zero.mp hi]
      exact partCount_pos hcontent
    obtain ⟨m, hm, rfl, haccepted⟩ := simulates_small.yields ⟨sending_start, hneeded⟩ h
    exact ⟨(yields_attempt_iff hneeded).mp hm, haccepted⟩

theorem exists_small (fileId : UInt64) (h : Ends (Accepts answers) (partCount content) m) :
    ∃ s : Upload,
      Yields (saveFilePartStep (inOrder answers) fileId) ⟨content, none, [], 0, 0, []⟩ s ∧
        s.requests.length = m := by
  by_cases hcontent : content = []
  · have hzero : Ends (Accepts answers) (partCount content) 0 := by
      subst hcontent
      exact ⟨rfl, fun j hj => absurd hj (Nat.not_lt_zero j)⟩
    exact ⟨_, (yields_leave (saveFilePartStep_end rfl hcontent)).mpr rfl, hzero.unique h⟩
  · have hneeded : ∀ i ≤ 0, Nat.count (Accepts answers) i < partCount content := by
      intro i hi
      rw [Nat.le_zero.mp hi]
      exact partCount_pos hcontent
    have hread : saveFilePartStep (inOrder answers) fileId ⟨content, none, [], 0, 0, []⟩ = _ :=
      saveFilePartStep_read rfl hcontent
    obtain ⟨s, hs, hlen, -⟩ := simulates_small.yields_of ⟨sending_start, hneeded⟩
      ((yields_attempt_iff hneeded).mpr h)
    exact ⟨s, (yields_next hread).mpr hs, hlen⟩

end

/-! ## Big files -/

section
variable {answers : Nat → Tl} {progress : Option (Nat → Int)} {fileId : UInt64}
  {filename content : Bytes} {s : BigUpload} {j k m : Nat}

/-- What a big upload shares with a small one. -/
def BigUpload.upload (s : BigUpload) : Upload :=
  ⟨s.rest, s.bytes, s.buf, s.filePart, s.retry, s.sent.map SentBlock.query⟩

/-- The request for a part of a big file, by its number. -/
def bigRequest (fileId : UInt64) (content : Bytes) (filePart : UInt32) (bytes : Bytes) : Bytes :=
  tlUploadSaveBigFilePart fileId filePart (fileTotalParts content) bytes

/-- How many parts of a big file have to be accepted. -/
def bigNeeded (progress : Option (Nat → Int)) (content : Bytes) : Nat :=
  min (partCount content) ((List.range (partCount content)).findIdx (cancels progress) + 1)

/-- Only the last part that has to be accepted may cancel. -/
theorem not_cancels_of_lt (h : k + 1 < bigNeeded progress content) : ¬ cancels progress k := by
  rw [bigNeeded] at h
  have hlt : k < (List.range (partCount content)).findIdx (cancels progress) := by omega
  have hnot := List.not_of_lt_findIdx hlt
  rw [List.getElem_range] at hnot
  exact Bool.not_eq_true _ ▸ hnot

/-- If the last one does not cancel, it is the last one of the file. -/
theorem eq_partCount_of_not_cancels (h : k + 1 = bigNeeded progress content)
    (hnot : ¬ cancels progress k) : k + 1 = partCount content := by
  rw [bigNeeded] at h
  by_contra hne
  have hidx : (List.range (partCount content)).findIdx (cancels progress) = k := by omega
  have hlt : (List.range (partCount content)).findIdx (cancels progress) <
      (List.range (partCount content)).length := by
    rw [List.length_range]
    omega
  have hcancels := List.findIdx_getElem (w := hlt)
  rw [List.getElem_range, hidx] at hcancels
  exact hnot hcancels

/-- Before an attempt that is still needed. -/
structure SendingBig (answers : Nat → Tl) (progress : Option (Nat → Int)) (fileId : UInt64)
    (content : Bytes) (s : BigUpload) (j : Nat) : Prop where
  sending : Sending answers (bigRequest fileId content) content j s.upload
  calls : s.calls = Nat.count (Accepts answers) j
  blocks : Handles.Owns s.blocks none
  needed : ∀ i ≤ j, Nat.count (Accepts answers) i < bigNeeded progress content

/-- The upload ended after so many attempts, all its buffers were freed, and it goes on only if all
parts are accepted, unless it is cancelled. -/
structure SentBig (answers : Nat → Tl) (progress : Option (Nat → Int)) (fileId : UInt64)
    (content : Bytes) (r : SendEnd × BigUpload) (m : Nat) : Prop where
  attempts : r.2.sent.length = m
  blocks : Handles.Owns r.2.blocks none
  error : r.1 = .error → ∃ k, cancels progress k
  media : r.1 = .media → accepted (inOrder answers) (r.2.sent.map SentBlock.query) =
    (List.range (partCount content)).map fun i =>
      bigRequest fileId content (UInt32.ofNat i) (part content (i * partSize) partSize)

theorem simulates_big :
    Simulates (saveBigFilePartStep answers progress fileId (fileTotalParts content))
      (attempt (Accepts answers) (bigNeeded progress content))
      (SendingBig answers progress fileId content) (SentBig answers progress fileId content) where
  leave s j m h hstep := by
    obtain ⟨hlast, rfl⟩ := attempt_eq_inl_iff.mp hstep
    obtain ⟨hok, hcount⟩ := ok_of_count (h.needed j (Nat.le_refl j)) hlast
    have hsending := h.sending
    have hlen : s.sent.length = j := by
      rw [← hsending.attempts]
      exact (List.length_map _).symm
    have hbytes : s.bytes = _ := hsending.bytes
    generalize part content _ partSize = bytes at hbytes
    have hid : (answers s.sent.length).id = idBoolTrue := hlen ▸ hok
    by_cases hcancel : cancels progress s.calls
    · have hleave :=
        saveBigFilePartStep_cancelled fileId (fileTotalParts content) hbytes hid hcancel
      refine ⟨_, (yields_leave hleave).mpr rfl, congrArg Nat.succ hlen,
        h.blocks.take.release, fun _ => ⟨_, hcancel⟩, fun h => by cases h⟩
    · have haccepted :=
        saveBigFilePartStep_accepted fileId (fileTotalParts content) hbytes hid hcancel
      have hall : Nat.count (Accepts answers) j + 1 = partCount content :=
        eq_partCount_of_not_cancels hcount (h.calls ▸ hcancel)
      have hrest : s.rest = [] := hsending.rest_eq_nil_iff.mpr hall.ge
      have hend := saveBigFilePartStep_end answers progress fileId (fileTotalParts content)
        (s := { s.send fileId (fileTotalParts content) bytes with
          bytes := none
          filePart := s.filePart + 1
          calls := s.calls + 1 }) rfl hrest
      refine ⟨_, (yields_next haccepted).mpr ((yields_leave hend).mpr rfl), congrArg Nat.succ hlen,
        h.blocks.take.release, (fun h => by cases h), fun _ => ?_⟩
      have hparts := hsending.accepted_succ hok
      rw [Upload.request_of_bytes hbytes, hlast, ← hcount, hall] at hparts
      exact hparts
  next s j k h hstep := by
    obtain ⟨hne, rfl⟩ := attempt_eq_inr_iff.mp hstep
    have hneeded := count_lt_succ h.needed hne
    have hsending := h.sending
    have hlen : s.sent.length = j := by
      rw [← hsending.attempts]
      exact (List.length_map _).symm
    have hbytes : s.bytes = _ := hsending.bytes
    generalize part content _ partSize = bytes at hbytes
    by_cases hok : Accepts answers j
    · have hid : (answers s.sent.length).id = idBoolTrue := hlen ▸ hok
      have hcount := Nat.count_succ_eq_succ_count_iff.mpr hok
      have hless := hneeded (j + 1) (Nat.le_refl _)
      rw [hcount] at hless
      have hcancel : ¬ cancels progress s.calls := h.calls ▸ not_cancels_of_lt hless
      have hrest : s.rest ≠ [] := by
        intro hnil
        have hle := hsending.rest_eq_nil_iff.mp hnil
        rw [bigNeeded] at hless
        omega
      have haccepted :=
        saveBigFilePartStep_accepted fileId (fileTotalParts content) hbytes hid hcancel
      have hread := saveBigFilePartStep_read answers progress fileId (fileTotalParts content)
        (s := { s.send fileId (fileTotalParts content) bytes with
          bytes := none
          filePart := s.filePart + 1
          calls := s.calls + 1 }) rfl hrest
      refine ⟨_, .tail (.single haccepted) hread, ?_, ?_, h.blocks.take.release, hneeded⟩
      · refine hsending.read hok rfl rfl rfl ?_
        rw [Upload.request_of_bytes hbytes]
        rfl
      · exact (congrArg Nat.succ h.calls).trans hcount.symm
    · have hid : (answers s.sent.length).id ≠ idBoolTrue := hlen ▸ hok
      have hcount := Nat.count_succ_eq_count_iff.mpr hok
      have hrefused :=
        saveBigFilePartStep_refused progress fileId (fileTotalParts content) hbytes hid
      refine ⟨_, .single hrefused, ?_, h.calls.trans hcount.symm, h.blocks.take.release,
        hneeded⟩
      refine hsending.refused hok rfl rfl rfl ?_
      rw [Upload.request_of_bytes hbytes]
      rfl

theorem sendingBig_start (answers : Nat → Tl) (progress : Option (Nat → Int)) (fileId : UInt64)
    (hcontent : content ≠ []) :
    ∃ s, saveBigFilePartStep answers progress fileId (fileTotalParts content) (.start content) =
        .inr s ∧ SendingBig answers progress fileId content s 0 := by
  have hread := saveBigFilePartStep_read answers progress fileId (fileTotalParts content)
    (s := .start content) rfl hcontent
  refine ⟨_, hread, sending_start, rfl, Handles.owns_empty, fun i hi => ?_⟩
  have hpos := partCount_pos hcontent
  rw [Nat.le_zero.mp hi, Nat.count_zero, bigNeeded]
  omega

/-- A big file is sent in as many attempts as it takes to have the parts accepted that must be. -/
theorem big_ends {r : SendEnd × BigUpload} (hname : filename.headD 0 ≠ 0) (hcontent : content ≠ [])
    (h : BigUpload.EndsWith answers progress fileId filename content r) :
    Ends (Accepts answers) (bigNeeded progress content) r.2.sent.length ∧
      SentBig answers progress fileId content r r.2.sent.length := by
  rw [BigUpload.EndsWith, if_neg hname] at h
  obtain ⟨s, hread, hs⟩ := sendingBig_start answers progress fileId hcontent
  obtain ⟨m, hm, hsent⟩ := simulates_big.yields hs ((yields_next hread).mp h)
  obtain rfl := hsent.attempts
  exact ⟨(yields_attempt_iff hs.needed).mp hm, hsent⟩

theorem exists_big (fileId : UInt64) (hname : filename.headD 0 ≠ 0) (hcontent : content ≠ [])
    (h : Ends (Accepts answers) (bigNeeded progress content) m) :
    ∃ r, BigUpload.EndsWith answers progress fileId filename content r ∧
      SentBig answers progress fileId content r m := by
  obtain ⟨s, hread, hs⟩ := sendingBig_start answers progress fileId hcontent
  obtain ⟨r, hr, hsent⟩ := simulates_big.yields_of hs ((yields_attempt_iff hs.needed).mpr h)
  refine ⟨r, ?_, hsent⟩
  rw [BigUpload.EndsWith, if_neg hname]
  exact (yields_next hread).mpr hr

theorem fileSize_of_lt (h : content.length < 2 ^ 31) : fileSize content = content.length := by
  have hsize : (content.length : Int).bmod (2 ^ 32) = content.length := by
    rw [Int.bmod_eq_of_le_mul_two] <;> omega
  exact hsize

theorem fileTotalParts_eq (h : content.length < 2 ^ 31) :
    fileTotalParts content = UInt32.ofNat (partCount content) := by
  have hparts : (content.length : Int) / partSize +
      (if (content.length : Int) % partSize = 0 then 0 else 1) = (partCount content : Nat) := by
    rw [partCount, partSize]
    omega
  have hmod : ((partCount content : Nat) : Int) % 2 ^ 32 = (partCount content : Nat) := by
    rw [partCount, partSize]
    omega
  unfold fileTotalParts
  rw [fileSize_of_lt h, hparts, UInt32.ofInt, hmod, Int.toNat_natCast]

/-- But for the buffers that are freed too early, a big upload that nobody cancels is as it should
be: whatever is refused before, the parts are accepted in order, and each buffer is freed once. -/
theorem bigUpload_parts (hname : filename.headD 0 ≠ 0) (hcontent : content ≠ [])
    (hlen : content.length < 2 ^ 31) (h : Ends (Accepts answers) (partCount content) m) :
    ∃ s, BigUpload.EndsWith answers none fileId filename content (.media, s) ∧
      accepted (inOrder answers) (s.sent.map SentBlock.query) =
        (List.range (partCount content)).map (bigPart fileId content) ∧ s.blocks.Settled := by
  have hneeded : bigNeeded none content = partCount content := by
    have hnever : ∀ k ∈ List.range (partCount content), cancels none k = false := fun _ _ => rfl
    rw [bigNeeded, List.findIdx_eq_length_of_false hnever, List.length_range]
    exact Nat.min_eq_left (Nat.le_succ _)
  rw [← hneeded] at h
  obtain ⟨⟨e, s⟩, hs, hsent⟩ := exists_big fileId hname hcontent h
  cases e with
  | error =>
    obtain ⟨k, hk⟩ := hsent.error rfl
    cases hk
  | media =>
    refine ⟨s, hs, ?_, hsent.blocks.settled_iff.mpr rfl⟩
    rw [hsent.media rfl]
    simp only [bigRequest, fileTotalParts_eq hlen]
    rfl

end

/-! ## All files -/

section
variable {answers : Nat → Tl} {progress : Option (Nat → Int)} {fileId : UInt64}
  {filename content : Bytes} {e : SendEnd} {requests : List Bytes} {m : Nat}

theorem ne_nil_of_fileSize (h : fileSize content > 10485760) : content ≠ [] := by
  rintro rfl
  exact absurd h (by decide)

theorem documentSends_ends
    (h : DocumentSends answers progress fileId filename content e requests) :
    Ends (Accepts answers) (partsNeeded progress filename content) requests.length ∧
      (e = .media →
        accepted (inOrder answers) requests = partRequests fileId content (partCount content)) := by
  cases h with
  | @big e s hsize hs =>
    have hcontent := ne_nil_of_fileSize hsize
    rw [partsNeeded, if_pos hsize, List.length_map]
    by_cases hname : filename.headD 0 = 0
    · rw [BigUpload.EndsWith, if_pos hname] at hs
      cases hs
      rw [if_pos hname]
      exact ⟨⟨rfl, fun j hj => absurd hj (Nat.not_lt_zero j)⟩, fun h => by cases h⟩
    · rw [if_neg hname]
      obtain ⟨hends, hsent⟩ := big_ends hname hcontent hs
      refine ⟨hends, fun he => ?_⟩
      rw [hsent.media he, partRequests]
      simp only [partRequest, if_pos hsize, bigRequest]
  | @small s hsize hs =>
    obtain ⟨hends, haccepted⟩ := small_ends hs
    rw [partsNeeded, if_neg hsize]
    refine ⟨hends, fun _ => ?_⟩
    rw [haccepted, savedParts, partRequests]
    simp only [partRequest, if_neg hsize]

theorem exists_documentSends (fileId : UInt64)
    (h : Ends (Accepts answers) (partsNeeded progress filename content) m) :
    ∃ e requests, DocumentSends answers progress fileId filename content e requests ∧
      requests.length = m := by
  by_cases hsize : fileSize content > 10485760
  · rw [partsNeeded, if_pos hsize] at h
    by_cases hname : filename.headD 0 = 0
    · rw [if_pos hname] at h
      have hzero : Ends (Accepts answers) 0 0 := ⟨rfl, fun j hj => absurd hj (Nat.not_lt_zero j)⟩
      have hs : BigUpload.EndsWith answers progress fileId filename content
          (.error, .start content) := by
        rw [BigUpload.EndsWith, if_pos hname]
      exact ⟨.error, [], .big hsize hs, hzero.unique h⟩
    · rw [if_neg hname] at h
      obtain ⟨⟨e, s⟩, hs, hsent⟩ := exists_big fileId hname (ne_nil_of_fileSize hsize) h
      exact ⟨e, s.sent.map SentBlock.query, .big hsize hs, (List.length_map _).trans hsent.attempts⟩
  · rw [partsNeeded, if_neg hsize] at h
    obtain ⟨s, hs, hlen⟩ := exists_small fileId h
    exact ⟨.media, s.requests, .small hsize hs, hlen⟩

/-- The retries are bounded exactly if the parts that have to be accepted are so after at most nine
refusals. -/
theorem retriesBounded_iff (answers : Nat → Tl) (progress : Option (Nat → Int)) (fileId : UInt64)
    (filename content : Bytes) :
    RetriesBounded answers progress fileId filename content ↔
      partsNeeded progress filename content ≤
        Nat.count (Accepts answers) (partsNeeded progress filename content + 9) := by
  rw [← ends_within_iff]
  constructor
  · intro h
    obtain ⟨e, requests, hsends⟩ := h.ends
    exact ⟨_, (documentSends_ends hsends).1, h.bounded e requests hsends⟩
  · rintro ⟨m, hends, hbudget⟩
    obtain ⟨e, requests, hsends, hlen⟩ := exists_documentSends fileId hends
    have hall : ∀ e requests, DocumentSends answers progress fileId filename content e requests →
        requests.length = m := fun e requests h => (documentSends_ends h).1.unique hends
    refine ⟨⟨e, requests, hsends⟩, fun e requests h => ?_, fun e requests h hten => ?_,
      fun requests h => (documentSends_ends h).2 rfl⟩
    · rw [hall e requests h]
      exact hbudget
    · -- the last attempt is no refusal, so that there are never ten
      rw [hall e requests h] at hten
      have hless := hends.count_not_lt hbudget
      omega

end

/-- A server that refuses the first part for ever. -/
theorem not_retriesBounded_refused :
    ¬ RetriesBounded (fun _ => .null) none 7 [97] [1, 2, 3] := by
  intro h
  obtain ⟨e, requests, hsends⟩ := h.ends
  have hends := (documentSends_ends hsends).1
  have hnone : Nat.count (Accepts fun _ => Tl.null) requests.length = 0 :=
    Nat.count_iff_forall_not.mpr fun _ _ => show ¬ (0 : UInt32) = idBoolTrue by decide
  have hone : partsNeeded none [97] [1, 2, 3] = 1 := by decide
  rw [Ends, hnone, hone] at hends
  exact absurd hends.1 (by decide)

end Libtg
