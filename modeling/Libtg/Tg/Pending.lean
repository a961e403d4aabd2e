import Libtg.Tg.Records

/-!
# What is pending is neither lost nor sent twice (`tg/ack.c`)

`tg->msgids` and `tg->todrop` are filled by some threads and emptied by others. What was taken out,
in the order in which it was taken, and what is still there are together what was there first and
what was put in (`conserved`); and what is to be dropped stays while no container is built.
-/

namespace Libtg.Threads

open Transition

variable {E : Env} {v : Prop} {i : Nat} {tg₀ : Tg} {log past new : List Event}

/-- What the events of a log give, oldest first. -/
def collect (f : Event → List UInt64) (log : List Event) : List UInt64 := log.reverse.flatMap f

@[simp] theorem collect_cons (f : Event → List UInt64) (e : Event) (past : List Event) :
    collect f (e :: past) = collect f past ++ f e := by
  rw [collect, List.reverse_cons, List.flatMap_append, List.flatMap_singleton]
  rfl

theorem collect_append (f : Event → List UInt64) (new log : List Event) :
    collect f (new ++ log) = collect f log ++ collect f new := by
  rw [collect, List.reverse_append, List.flatMap_append]
  rfl

/-- The ids an `msgs_ack` lists. -/
def Event.acked? : Event → List UInt64
  | .acked _ ids => ids
  | _ => []

/-- The ids of the `rpc_drop_answer`s. -/
def Event.dropped? : Event → List UInt64
  | .dropped _ ids => ids
  | _ => []

/-- The id given to `tg_add_msgid`. -/
def Event.newMsgid : Event → List UInt64
  | .addedMsgid _ msgid => [msgid]
  | _ => []

/-- The id given to `tg_add_todrop`. -/
def Event.newTodrop : Event → List UInt64
  | .addedTodrop _ msgid => [msgid]
  | _ => []

/-- What an event takes out, and what it puts in, is all that changes. -/
def Balanced (E : Env) (v : Prop) (pending : Tg → List UInt64) (out put : Event → List UInt64) :
    Prop :=
  ∀ tg past (e : Event), e.Lawful E v tg past → out e ++ pending (e.apply tg) = pending tg ++ put e

theorem balanced_msgids : Balanced E v Tg.msgids Event.acked? Event.newMsgid := by
  intro tg past e he
  cases e with
  | acked i ids =>
    show ids ++ [] = tg.msgids ++ []
    rw [show ids = tg.msgids from he]
  | addedMsgid i msgid => rfl
  | numbered i msgId seqno content => cases content <;> exact (List.append_nil _).symm
  | _ => exact (List.append_nil _).symm

theorem balanced_todrop : Balanced E v Tg.todrop Event.dropped? Event.newTodrop := by
  intro tg past e he
  cases e with
  | dropped i ids =>
    show ids ++ [] = tg.todrop ++ []
    rw [show ids = tg.todrop from he.1]
  | addedTodrop i msgid => rfl
  | numbered i msgId seqno content => cases content <;> exact (List.append_nil _).symm
  | _ => exact (List.append_nil _).symm

theorem conserved_of_balanced {pending : Tg → List UInt64} {out put : Event → List UInt64}
    (hb : Balanced E v pending out put)
    (h : Chronicle (fun past e => e.Lawful E v (replay tg₀ past) past) log) :
    collect out log ++ pending (replay tg₀ log) = pending tg₀ ++ collect put log := by
  induction log with
  | nil => exact (List.append_nil _).symm
  | cons e past ih =>
    calc collect out (e :: past) ++ pending (e.apply (replay tg₀ past))
        = collect out past ++ (out e ++ pending (e.apply (replay tg₀ past))) := by
          rw [collect_cons, List.append_assoc]
      _ = collect out past ++ pending (replay tg₀ past) ++ put e := by
          rw [hb _ past e h.1, List.append_assoc]
      _ = pending tg₀ ++ collect put (e :: past) := by
          rw [ih h.2, collect_cons, List.append_assoc]

/-- What is expected of the acknowledgements and the drops of a session. -/
structure Conserved (tg₀ : Tg) (s : SharedTg) : Prop where
  msgids : collect Event.acked? s.log ++ s.tg.msgids = tg₀.msgids ++ collect Event.newMsgid s.log
  todrop : collect Event.dropped? s.log ++ s.tg.todrop =
    tg₀.todrop ++ collect Event.newTodrop s.log
  /-- A container lists what its thread took out for it. -/
  sent : Chronicle (fun past e => ∀ i p msgid, e = .returned i (.packet p msgid) →
    p.Recorded i past) s.log

/-- Thread `i` is building a container. -/
def Building (i : Nat) (log : List Event) : Prop := ∃ ids, .acked i ids ∈ since i log

theorem since_append_subset : since i (new ++ log) ⊆ new ++ since i log := by
  induction new with
  | nil => exact List.Subset.refl _
  | cons e new ih =>
    rw [since, List.cons_append, List.takeWhile_cons]
    split_ifs
    · exact List.cons_subset_cons _ ih
    · exact List.nil_subset _

/-- While no container is built nothing is dropped. -/
theorem collect_dropped
    (h : Chronicle (fun past e => e.Lawful E True (replay tg₀ past) past) (new ++ log))
    (hlog : ∀ i, ¬ Building i log) (hnew : ∀ i ids, .acked i ids ∉ new) :
    collect Event.dropped? new = [] := by
  induction new with
  | nil => rfl
  | cons e new ih =>
    rw [collect_cons, ih h.2 fun i ids => mt (List.mem_cons_of_mem e) (hnew i ids),
      List.nil_append]
    cases e with
    | dropped i ids =>
      exfalso
      obtain ⟨ids', hacked⟩ := h.1.2 trivial
      obtain hin | hin := List.mem_append.mp (since_append_subset hacked)
      · exact hnew i ids' (List.mem_cons_of_mem _ hin)
      · exact hlog i ⟨ids', hin⟩
    | _ => rfl

/-- Acknowledgements and drops, whatever the threads do: those sent and those pending are those of
the beginning and those added. As long as no container is built, drops stay pending. -/
theorem conserved {P : TgPool}
    (hr : Reach (move E) (Pool.Calls (· ≠ .tgToDrop)) (start tg₀) P) :
    Conserved tg₀ P.shared ∧
      ∀ P' new, Reach (move E) (Pool.Calls (· ≠ .tgToDrop)) P P' →
        P'.shared.log = new ++ P.shared.log → (∀ i, ¬ Building i P.shared.log) →
        (∀ i ids, .acked i ids ∉ new) →
        P'.shared.tg.todrop = P.shared.tg.todrop ++ collect Event.newTodrop new := by
  have hcalls : ∀ (P : TgPool) l, Pool.Calls (· ≠ .tgToDrop) P l →
      Pool.Calls (fun c => True → c ≠ .tgToDrop) P l := fun P l h => by
    cases l with
    | call i c => exact fun _ => h
    | act i => trivial
  have hlaw := lawful (v := True) hcalls hr
  have htodrop := conserved_of_balanced balanced_todrop hlaw.lawful
  rw [← hlaw.session] at htodrop
  refine ⟨⟨?_, htodrop, ?_⟩, fun P' new hr' hlog hidle hnew => ?_⟩
  · rw [hlaw.session]
    exact conserved_of_balanced balanced_msgids hlaw.lawful
  · refine hlaw.lawful.mono fun past e he i p msgid heq => ?_
    subst heq
    exact he.1
  · have hlaw' := lawful (v := True) hcalls (hr.trans hr')
    have htodrop' := conserved_of_balanced balanced_todrop hlaw'.lawful
    rw [← hlaw'.session, hlog, collect_append, collect_append,
      collect_dropped (hlog ▸ hlaw'.lawful) hidle hnew, List.append_nil, ← List.append_assoc,
      ← htodrop, List.append_assoc] at htodrop'
    exact List.append_cancel_left htodrop'

/-- While thread 1 builds a container, thread 0 adds an id to be acknowledged and one to drop. -/
def addWhileBuilding : List (Pool.Move Call) :=
  [.call 0 (.tgAddTodrop 9), .act 0, .act 0, .call 1 (.tgHeader [1, 2, 3, 4] true true 0), .act 1,
    .call 0 (.tgAddMsgid 11), .act 0, .act 0] ++ List.replicate 14 (.act 1)

theorem conserved_addWhileBuilding :
    ∃ P, Reach (move ticking) (Pool.Calls (· ≠ .tgToDrop))
        (start { freshSession with msgids := [3], todrop := [5] }) P ∧
      collect Event.acked? P.shared.log = [3] ∧ collect Event.dropped? P.shared.log = [5, 9] ∧
      Conserved { freshSession with msgids := [3], todrop := [5] } P.shared := by
  obtain ⟨P, hr, hP⟩ : ∃ P, Reach (move ticking) (Pool.Calls (· ≠ .tgToDrop))
      (start { freshSession with msgids := [3], todrop := [5] }) P ∧
      (collect Event.acked? P.shared.log, collect Event.dropped? P.shared.log) = ([3], [5, 9]) :=
    Reach.of_run (fun P : TgPool =>
        (collect Event.acked? P.shared.log, collect Event.dropped? P.shared.log))
      addWhileBuilding (by simp [addWhileBuilding, Pool.Calls]) (by decide +kernel)
  obtain ⟨hacked, hdropped⟩ := Prod.mk.inj hP
  exact ⟨P, hr, hacked, hdropped, (conserved hr).1⟩

end Libtg.Threads
