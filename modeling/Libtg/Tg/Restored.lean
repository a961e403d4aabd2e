import Libtg.Tg.Rows

/-!
# Saved records come back (`tg/chat.c`, `tg/channel.c`, `tg/user.c`)

The saves, the tables and the getters are made from one list of fields. Whatever has been saved
before, a field comes back if no other field has its column (`get_int`, `get_str`). This is so for a
channel (`channel_comesBack`). A chat has one column for two fields, and the second one is what both
of them come back as (`chat_comesBack_iff`). A user is saved without some of its columns if it is
a `min` one, and each column then comes back as it was last set (`user_merged`).
-/

namespace Libtg.Database

open Sql LastOf

/-- A record of its C type in which no text is missing or empty or has a quote. -/
structure FilledRecord (s : Store) where
  record : Record
  typed : ∀ a ∈ s.args, a.isText = false → a.t.cast (record.int a.n) = record.int a.n
  text : ∀ a ∈ s.args, a.isText → ∃ u, record.str a.n = some u ∧ u.bytes ≠ [] ∧ quote ∉ u.bytes

/-- The two are equal in every field. -/
structure SameFields (args : List Arg) (m m' : Record) : Prop where
  int : ∀ a ∈ args, a.isText = false → m.int a.n = m'.int a.n
  str : ∀ a ∈ args, a.isText → m.str a.n = m'.str a.n

theorem FilledRecord.plain {s : Store} (m : FilledRecord s) : s.Plain m.record := by
  intro a ha htext c hc
  obtain ⟨u, hu, -, hquote⟩ := m.text a ha htext
  cases hu.symm.trans hc
  exact hquote

/-- The database after these saves and the save of a record. -/
def savedAfter (A : Affinity) (cs : List PlainSave) (id : Int32) (k : Kind) (m : Record) : Db :=
  saves A (databaseInit A) (cs.map PlainSave.toSave ++ [⟨id, k, m⟩])

/-! ## The last save of a key -/

section
variable {A : Affinity} {cs : List PlainSave} {id : Int32} {k : Kind} {key : UInt64} {a : Arg}

theorem assign_int {empty : Bool} {m : Record} (hnum : a.isText = false)
    (h : m.int "min_" = 0 ∨ a.ifmin ≠ 1) :
    a.assign empty m = some (bytes a.name, .int (ld (m.int a.n))) := by
  rw [Arg.isText, decide_eq_false_iff_not, not_or] at hnum
  cases hp : a.printer with
  | arg => simp only [Arg.assign, hp, if_pos h]
  | spa => simp only [Arg.assign, hp]
  | str => exact absurd hp hnum.1
  | sps => exact absurd hp hnum.2

theorem assign_of_isText {empty : Bool} {m : Record} (htext : a.isText) :
    a.assign empty m = (m.str a.n).bind fun u =>
      if empty ∨ u.bytes ≠ [] then some (bytes a.name, .text u.bytes) else none := by
  have hp : a.printer = .str ∨ a.printer = .sps := of_decide_eq_true htext
  rcases hp with hp | hp
  · simp only [Arg.assign, hp]
  · simp only [Arg.assign, hp]

/-- What the last save of a key has set. -/
theorem lastSet_last {cs : List Save} {c : Save} {n : String} {v : Value} (hn : n ≠ "id")
    (h : c.kind.store.fieldSet c.record n = some v) :
    lastSet (cs ++ [c]) c.kind c.key (bytes n) = some v := by
  rw [lastSet_append, Save.setsAt, if_pos ⟨rfl, rfl⟩, assigned_sets hn, h]
  rfl

theorem lastSet_id (cs : List Save) (c : Save) :
    lastSet (cs ++ [c]) c.kind c.key (bytes "id") = some (.int c.account.toInt) := by
  rw [lastSet_append, Save.setsAt, if_pos ⟨rfl, rfl⟩, assigned_id]
  rfl

/-- The getter shows the row that the save has set. -/
theorem get_savedAfter (m : FilledRecord k.store) (hkey : k.store.keyOf m.record = ld key) :
    k.store.get id key (savedAfter A cs id k m.record) = k.store.record (k.store.cells
      (laidRow A (cs.map PlainSave.toSave ++ [⟨id, k, m.record⟩]) k (ld key))) := by
  obtain ⟨t, htable, h⟩ := saves_laid A (cs ++ [⟨⟨id, k, m.record⟩, m.plain⟩]) k
  rw [List.map_append] at htable h
  have hid := lastSet_id (cs.map PlainSave.toSave) ⟨id, k, m.record⟩
  rw [show Save.key ⟨id, k, m.record⟩ = ld key from hkey] at hid
  exact h.get_saved htable ⟨⟨id, k, m.record⟩, List.mem_append_right _ (List.mem_singleton_self _),
    rfl, hkey⟩ hid

/-- What is set in the column of a number comes back. -/
theorem get_int (m : FilledRecord k.store) (hkey : k.store.keyOf m.record = ld key)
    (hn : (k.store.args.map Arg.n).Nodup)
    (hint : ∀ a ∈ k.store.args, a.isText = false → a.type = "INT") (ha : a ∈ k.store.args)
    (hnum : a.isText = false) {x : UInt64}
    (hset : k.store.fieldSet m.record a.name = some (.int (ld x))) :
    (k.store.get id key (savedAfter A cs id k m.record)).int a.n = a.t.cast x := by
  have hlast : lastSet (cs.map PlainSave.toSave ++ [⟨id, k, m.record⟩]) k (ld key) (bytes a.name) =
      some (.int (ld x)) := hkey ▸ lastSet_last (k.store.args_id a ha) hset
  rw [get_savedAfter m hkey, record_int hn ha hnum, laidRow_int hint ha hnum hlast]
  exact congrArg a.t.cast (ofInt_ld x)

/-- So does what is set in the column of a text. -/
theorem get_str (m : FilledRecord k.store) (hkey : k.store.keyOf m.record = ld key)
    (hn : (k.store.args.map Arg.n).Nodup) (ha : a ∈ k.store.args) (htext : a.isText)
    (htype : a.type = "TEXT") :
    (k.store.get id key (savedAfter A cs id k m.record)).str a.n = m.record.str a.n := by
  obtain ⟨u, hu, hempty, -⟩ := m.text a ha htext
  have hset : k.store.fieldSet m.record a.name = some (.text u.bytes) := by
    rw [fieldSet_of_unique ha fun b hb hname => k.store.args_text a ha htext b hb hname,
      assign_text htext hu hempty]
    rfl
  have hlast : lastSet (cs.map PlainSave.toSave ++ [⟨id, k, m.record⟩]) k (ld key) (bytes a.name) =
      some (.text u.bytes) := hkey ▸ lastSet_last (k.store.args_id a ha) hset
  rw [get_savedAfter m hkey, record_str hn ha htext, laidRow_text ha htext htype hlast, hu,
    readText_text hempty]

/-- A field that no other field shares its column with comes back. -/
theorem get_int_of_unique (m : FilledRecord k.store) (hkey : k.store.keyOf m.record = ld key)
    (hn : (k.store.args.map Arg.n).Nodup)
    (hint : ∀ a ∈ k.store.args, a.isText = false → a.type = "INT") (ha : a ∈ k.store.args)
    (hnum : a.isText = false) (hifmin : a.ifmin ≠ 1)
    (hunique : ∀ b ∈ k.store.args, b.name = a.name → b = a) :
    (k.store.get id key (savedAfter A cs id k m.record)).int a.n = m.record.int a.n := by
  have hset : k.store.fieldSet m.record a.name = some (.int (ld (m.record.int a.n))) := by
    rw [fieldSet_of_unique ha hunique, assign_int hnum (.inr hifmin)]
    rfl
  rw [get_int m hkey hn hint ha hnum hset, m.typed a ha hnum]

end

/-! ## Channels -/

theorem channels_args : ((tgChannelArgs.map fun a => code a.n).Nodup ∧
      (tgChannelArgs.map fun a => code a.name).Nodup) ∧
    ∀ a ∈ tgChannelArgs, a.ifmin = 0 ∧
      (a.isText = false → a.type = "INT") ∧ (a.isText → a.type = "TEXT") := by decide +kernel

theorem channels_n_nodup : (tgChannelArgs.map Arg.n).Nodup :=
  nodup_of_code Arg.n channels_args.1.1

theorem channels_name_nodup : (tgChannelArgs.map Arg.name).Nodup :=
  nodup_of_code Arg.name channels_args.1.2

/-- A saved channel comes back as it was, whatever was saved before. -/
theorem channel_comesBack (A : Affinity) (cs : List PlainSave) (id : Int32)
    (m : FilledRecord channels) :
    SameFields tgChannelArgs (tgChannelGet id (m.record.int "id_")
      (savedAfter A cs id .channel m.record)) m.record where
  int a ha hnum := by
    have hifmin : a.ifmin ≠ 1 := by
      rw [(channels_args.2 a ha).1]
      exact Nat.zero_ne_one
    exact get_int_of_unique (k := .channel) m rfl channels_n_nodup
      (fun a ha => (channels_args.2 a ha).2.1) ha hnum hifmin
      fun b hb hname => List.inj_on_of_nodup_map channels_name_nodup hb ha hname
  str a ha htext :=
    get_str (k := .channel) m rfl channels_n_nodup ha htext ((channels_args.2 a ha).2.2 htext)

/-! ## Chats -/

theorem chats_args : ((tgChatArgs.map fun a => code a.n).Nodup ∧
      ((tgChatArgs.filter fun a => a.n ≠ "noforwards_").map fun a => code a.name).Nodup) ∧
    ∀ a ∈ tgChatArgs, a.ifmin = 0 ∧
      (a.isText = false → a.type = "INT") ∧ (a.isText → a.type = "TEXT") := by decide +kernel

theorem chats_n_nodup : (tgChatArgs.map Arg.n).Nodup := nodup_of_code Arg.n chats_args.1.1

theorem chats_name_nodup : ((tgChatArgs.filter fun a => a.n ≠ "noforwards_").map Arg.name).Nodup :=
  nodup_of_code Arg.name chats_args.1.2

/-- One column is the column of two fields, which are next to each other. -/
theorem chats_shared : (∀ a ∈ tgChatArgs, (a.n = "noforwards_" → a.name = "call_not_empty") ∧
      (a.name = "call_not_empty" →
        a.isText = false ∧ a.t = .bool ∧ (a.n = "call_not_empty_" ∨ a.n = "noforwards_"))) ∧
    ∀ a ∈ tgChatArgs.drop 6, a.name ≠ "call_not_empty" := by
  decide +kernel

/-- All others have their own. -/
theorem chats_unique {a : Arg} (ha : a ∈ tgChatArgs) (hname : a.name ≠ "call_not_empty") :
    ∀ b ∈ tgChatArgs, b.name = a.name → b = a := by
  have hmem : ∀ b ∈ tgChatArgs, b.name = a.name →
      b ∈ tgChatArgs.filter fun a => a.n ≠ "noforwards_" := by
    intro b hb hba
    refine List.mem_filter.mpr ⟨hb, decide_eq_true fun hn => hname ?_⟩
    rw [← hba, (chats_shared.1 b hb).1 hn]
  intro b hb hba
  exact List.inj_on_of_nodup_map chats_name_nodup (hmem b hb hba) (hmem a ha rfl) hba

def callNotEmpty : Arg := ⟨.arg, .bool, "call_not_empty_", "INT", "call_not_empty", 0⟩

def noforwards : Arg := ⟨.arg, .bool, "noforwards_", "INT", "call_not_empty", 0⟩

theorem callNotEmpty_mem : callNotEmpty ∈ tgChatArgs :=
  List.mem_of_getElem? (rfl : tgChatArgs[4]? = some callNotEmpty)

theorem noforwards_mem : noforwards ∈ tgChatArgs :=
  List.mem_of_getElem? (rfl : tgChatArgs[5]? = some noforwards)

/-- The second of the two fields is the one that is set. -/
theorem chats_fieldSet (m : Record) :
    chats.fieldSet m "call_not_empty" = some (.int (ld (m.int "noforwards_"))) := by
  have hsplit : chats.args = tgChatArgs.take 5 ++ [noforwards] ++ tgChatArgs.drop 6 := rfl
  have hname : noforwards.name = "call_not_empty" := rfl
  have hassign : noforwards.assign chats.empty m =
      some (bytes "call_not_empty", .int (ld (m.int "noforwards_"))) :=
    assign_int rfl (.inr (by decide))
  rw [Store.fieldSet, hsplit, lastOf_append_of_none fun b hb => if_neg (chats_shared.2 b hb),
    lastOf_append, hassign, if_pos hname]
  rfl

/-- Both fields come back as the second. -/
theorem chat_shared_back (A : Affinity) (cs : List PlainSave) (id : Int32) (m : FilledRecord chats)
    {a : Arg} (ha : a ∈ tgChatArgs) (hname : a.name = "call_not_empty") :
    (tgChatGet id (m.record.int "id_") (savedAfter A cs id .chat m.record)).int a.n =
      m.record.int "noforwards_" := by
  obtain ⟨hnum, ht, -⟩ := (chats_shared.1 a ha).2 hname
  have hget : (tgChatGet id (m.record.int "id_") (savedAfter A cs id .chat m.record)).int a.n =
      a.t.cast (m.record.int "noforwards_") :=
    get_int (k := .chat) m rfl chats_n_nodup (fun a ha => (chats_args.2 a ha).2.1) ha hnum
      (hname ▸ chats_fieldSet m.record)
  rw [ht] at hget
  exact hget.trans (m.typed noforwards noforwards_mem rfl)

/-- A saved chat comes back as it was exactly if its two fields that share a column are equal. -/
theorem chat_comesBack_iff (A : Affinity) (cs : List PlainSave) (id : Int32)
    (m : FilledRecord chats) :
    SameFields tgChatArgs (tgChatGet id (m.record.int "id_")
        (savedAfter A cs id .chat m.record)) m.record ↔
      m.record.int "call_not_empty_" = m.record.int "noforwards_" := by
  have hint : ∀ a ∈ tgChatArgs, a.isText = false → a.type = "INT" :=
    fun a ha => (chats_args.2 a ha).2.1
  constructor
  · intro h
    rw [← chat_shared_back A cs id m callNotEmpty_mem rfl]
    exact (h.int callNotEmpty callNotEmpty_mem rfl).symm
  · intro heq
    refine ⟨fun a ha hnum => ?_, fun a ha htext => ?_⟩
    · by_cases hname : a.name = "call_not_empty"
      · rw [chat_shared_back A cs id m ha hname]
        obtain ⟨-, -, hn | hn⟩ := (chats_shared.1 a ha).2 hname
        · rw [hn, heq]
        · rw [hn]
      · have hifmin : a.ifmin ≠ 1 := by
          rw [(chats_args.2 a ha).1]
          exact Nat.zero_ne_one
        exact get_int_of_unique (k := .chat) m rfl chats_n_nodup hint ha hnum hifmin
          (chats_unique ha hname)
    · exact get_str (k := .chat) m rfl chats_n_nodup ha htext ((chats_args.2 a ha).2.2 htext)

/-- A chat that may not be forwarded and has no call, all its texts being `x`. -/
def silentChat : Record where
  int n := if n = "noforwards_" then 1 else 0
  str _ := some ⟨bytes "x", by decide⟩

theorem silentChat_typed : ∀ a ∈ tgChatArgs, a.isText = false →
    a.t.cast (silentChat.int a.n) = silentChat.int a.n := by decide +kernel

def silentFilled : FilledRecord chats where
  record := silentChat
  typed := silentChat_typed
  text _ _ _ := ⟨_, rfl, List.cons_ne_nil _ _, by decide⟩

/-- It comes back with a call. -/
theorem not_chat_comesBack : ¬ SameFields tgChatArgs (tgChatGet 7 (silentFilled.record.int "id_")
    (savedAfter Affinity.none [] 7 .chat silentFilled.record)) silentFilled.record := by
  intro h
  have hback := chat_shared_back Affinity.none [] 7 silentFilled callNotEmpty_mem rfl
  have hne : silentFilled.record.int "noforwards_" ≠ silentFilled.record.int callNotEmpty.n := by
    simp [silentFilled, silentChat, callNotEmpty]
  exact hne (hback.symm.trans (h.int callNotEmpty callNotEmpty_mem rfl))

/-! ## Users -/

/-- A user of this id as it is saved: a record of its C type whose texts have no quotes. -/
structure UserRecord (userId : UInt64) where
  record : Record
  id : record.int "id_" = userId
  typed : ∀ a ∈ tgUserArgs, a.isText = false → a.t.cast (record.int a.n) = record.int a.n
  plain : users.Plain record

/-- What is to be known of a user that was saved as these records. -/
structure MergedUser (ms : List Record) (u : Record) : Prop where
  /-- The columns that are not taken from a `min` user. -/
  full : ∀ a ∈ tgUserArgs, a.ifmin = 1 →
    u.int a.n = (((ms.filter fun m => m.int "min_" = 0).getLast?).map fun m => m.int a.n).getD 0
  int : ∀ a ∈ tgUserArgs, a.isText = false → a.ifmin ≠ 1 →
    u.int a.n = ((ms.getLast?).map fun m => m.int a.n).getD 0
  /-- The columns that are declared as texts. -/
  text : ∀ a ∈ tgUserArgs, a.type = "TEXT" →
    u.str a.n = ((ms.filterMap fun m => m.str a.n).filter fun t => t.bytes ≠ []).getLast?

theorem users_args : ((tgUserArgs.map fun a => code a.n).Nodup ∧
      (tgUserArgs.map fun a => code a.name).Nodup) ∧
    ∀ a ∈ tgUserArgs, (a.isText = false → a.type = "INT") ∧ (a.type = "TEXT" → a.isText) ∧
      (a.ifmin = 1 → a.printer = .arg ∧ a.name ≠ "user_id") := by
  decide +kernel

theorem users_n_nodup : (tgUserArgs.map Arg.n).Nodup := nodup_of_code Arg.n users_args.1.1

theorem users_name_nodup : (tgUserArgs.map Arg.name).Nodup := nodup_of_code Arg.name users_args.1.2

section
variable {A : Affinity} {id : Int32} {userId : UInt64} {ms : List (UserRecord userId)} {a : Arg}

def UserRecord.save (id : Int32) (m : UserRecord userId) : PlainSave :=
  ⟨⟨id, .user, m.record⟩, m.plain⟩

/-- The database after these saves. -/
def savedUsers (A : Affinity) (id : Int32) (ms : List (UserRecord userId)) : Db :=
  saves A (databaseInit A) (ms.map fun m => ⟨id, .user, m.record⟩)

/-- What the column of a field was last set to. -/
theorem lastSet_users (id : Int32) (ms : List (UserRecord userId)) (ha : a ∈ tgUserArgs) :
    lastSet (ms.map fun m => ⟨id, .user, m.record⟩) .user (ld userId) (bytes a.name) =
      lastOf (fun m : UserRecord userId => (a.assign false m.record).map Prod.snd) ms := by
  have hunique : ∀ b ∈ users.args, b.name = a.name → b = a := fun b hb hname =>
    List.inj_on_of_nodup_map users_name_nodup hb ha hname
  rw [lastSet, lastOf_map]
  refine congrArg (fun f => lastOf f ms) (funext fun m => ?_)
  have hof : Save.Of .user (ld userId) ⟨id, .user, m.record⟩ := ⟨rfl, congrArg ld m.id⟩
  rw [Save.setsAt, if_pos hof, assigned_sets (users.args_id a ha)]
  exact fieldSet_of_unique ha hunique m.record

theorem lastSet_users_id {ms : List (UserRecord userId)} (hne : ms ≠ []) (id : Int32) :
    lastSet (ms.map fun m => ⟨id, .user, m.record⟩) .user (ld userId) (bytes "id") =
      some (.int id.toInt) := by
  obtain ⟨ms, m, rfl⟩ := (List.eq_nil_or_concat' ms).resolve_left hne
  have hid := lastSet_id (ms.map fun m => ⟨id, .user, m.record⟩) ⟨id, .user, m.record⟩
  rw [show Save.key ⟨id, .user, m.record⟩ = ld userId from congrArg ld m.id] at hid
  rw [List.map_append]
  exact hid

/-- The getter shows the row of the user, if there is one. -/
theorem get_savedUsers (A : Affinity) (id : Int32) (ms : List (UserRecord userId)) :
    tgUserGet id userId (savedUsers A id ms) = if ms = [] then zero else
      users.record (users.cells (laidRow A (ms.map fun m => ⟨id, .user, m.record⟩) .user
        (ld userId))) := by
  obtain ⟨t, htable, h⟩ := saves_laid A (ms.map (UserRecord.save id)) .user
  rw [List.map_map] at htable h
  split_ifs with hne
  · subst hne
    exact h.get_unsaved htable (by simp)
  · obtain ⟨m, hm⟩ := List.exists_mem_of_ne_nil ms hne
    exact h.get_saved htable ⟨_, List.mem_map_of_mem hm, rfl, congrArg ld m.id⟩
      (lastSet_users_id hne id)

/-- A number comes back as the last of the records had it that set its column. -/
theorem users_int (ha : a ∈ tgUserArgs) (hnum : a.isText = false) (p : Record → Bool)
    (hp : ∀ m, a.assign false m = if p m then some (bytes a.name, .int (ld (m.int a.n))) else none)
    (hkey : a.name = "user_id" → ∀ m, p m) :
    (tgUserGet id userId (savedUsers A id ms)).int a.n =
      ((((ms.map UserRecord.record).filter p).getLast?).map fun m => m.int a.n).getD 0 := by
  have hset := lastSet_users id ms ha
  have hlast : lastOf (fun m : UserRecord userId => (a.assign false m.record).map Prod.snd) ms =
      (((ms.map UserRecord.record).filter p).getLast?).map fun m => .int (ld (m.int a.n)) := by
    rw [← lastOf_ite, lastOf_map]
    refine congrArg (fun f => lastOf f ms) (funext fun m => ?_)
    rw [hp]
    split_ifs <;> rfl
  rw [hlast] at hset
  rw [get_savedUsers]
  split_ifs with hne
  · rw [hne]
    rfl
  · rw [record_int users_n_nodup ha hnum]
    cases hrecord : ((ms.map UserRecord.record).filter p).getLast? with
    | none =>
      rw [hrecord] at hset
      have hname : a.name ≠ users.key := by
        intro hname
        have hall : (ms.map UserRecord.record).filter p = ms.map UserRecord.record :=
          List.filter_eq_self.mpr fun m _ => hkey hname m
        rw [hall, List.getLast?_eq_none_iff, List.map_eq_nil_iff] at hrecord
        exact hne hrecord
      rw [laidRow_null (k := .user) hname hset]
      cases a.t <;> rfl
    | some m =>
      rw [hrecord] at hset
      obtain ⟨m, hm, rfl⟩ := List.mem_map.mp (List.mem_of_mem_filter (List.mem_of_getLast? hrecord))
      rw [laidRow_int (k := .user) (fun a ha => (users_args.2 a ha).1) ha hnum hset]
      exact (congrArg a.t.cast (ofInt_ld _)).trans (m.typed a ha hnum)

theorem users_text (ha : a ∈ tgUserArgs) (htype : a.type = "TEXT") :
    (tgUserGet id userId (savedUsers A id ms)).str a.n =
      (((ms.map UserRecord.record).filterMap fun m => m.str a.n).filter
        fun t => t.bytes ≠ []).getLast? := by
  have htext := (users_args.2 a ha).2.1 htype
  have hset := lastSet_users id ms ha
  have hlast : lastOf (fun m : UserRecord userId => (a.assign false m.record).map Prod.snd) ms =
      ((((ms.map UserRecord.record).filterMap fun m => m.str a.n).filter
        fun t => t.bytes ≠ []).getLast?).map fun u => .text u.bytes := by
    rw [← lastOf_ite, lastOf_filterMap, lastOf_map]
    refine congrArg (fun f => lastOf f ms) (funext fun m => ?_)
    rw [assign_of_isText htext]
    cases m.record.str a.n with
    | none => rfl
    | some u =>
      by_cases hempty : u.bytes = []
      · simp [hempty]
      · simp [hempty]
  rw [hlast] at hset
  rw [get_savedUsers]
  split_ifs with hne
  · rw [hne]
    rfl
  · rw [record_str users_n_nodup ha htext]
    cases hrecord : (((ms.map UserRecord.record).filterMap fun m => m.str a.n).filter
        fun t => t.bytes ≠ []).getLast? with
    | none =>
      rw [hrecord] at hset
      have hname : a.name ≠ users.key := by
        intro hname
        have hnum := (users.args_key a ha hname).1
        rw [htext] at hnum
        cases hnum
      rw [laidRow_null (k := .user) hname hset]
      rfl
    | some u =>
      rw [hrecord] at hset
      have hne := (List.mem_filter.mp (List.mem_of_getLast? hrecord)).2
      rw [laidRow_text (k := .user) ha htext htype hset]
      exact readText_text (of_decide_eq_true hne)

end

/-- After any saves of a user each column comes back as it was last set. -/
theorem user_merged (A : Affinity) (id : Int32) (userId : UInt64) (ms : List (UserRecord userId)) :
    MergedUser (ms.map UserRecord.record) (tgUserGet id userId (savedUsers A id ms)) where
  full a ha hifmin := by
    obtain ⟨hp, hname⟩ := (users_args.2 a ha).2.2 hifmin
    have hnum : a.isText = false := by simp [Arg.isText, hp]
    refine users_int ha hnum (fun m => m.int "min_" = 0) (fun m => ?_) fun h => absurd h hname
    simp [Arg.assign, hp, hifmin]
  int a ha hnum hifmin := by
    have hint : (tgUserGet id userId (savedUsers A id ms)).int a.n =
        ((((ms.map UserRecord.record).filter fun _ => true).getLast?).map fun m =>
          m.int a.n).getD 0 :=
      users_int ha hnum (fun _ => true) (fun m => assign_int hnum (.inr hifmin)) fun _ _ => rfl
    rwa [List.filter_true] at hint
  text a ha htype := users_text ha htype

end Libtg.Database
