import AccessReplay.Object
import Mathlib.Data.List.Nodup

/-!
# Identities of objects

Handles are announced and asked for in any order.  What is allocated shows in the count of ids:
a call that moves it has allocated the id that it answers.  The `allocated` log lists these ids
with their handles, and everything about the ids can be read off it (`Reflects`): the ids are
the numbers from zero on, and a handle is bound to the one that was allocated for it last
(`latest`).

So two handles never have one id, and an id that was replaced does not come back
(`identities_never_shared`), until the ids are used up.
-/
namespace AccessReplay.ObjectIds

/-- A call to the ids. -/
inductive Call where
  | create (handle : Handle)
  | register (handle : Handle)
  | get (handle : Handle)
deriving DecidableEq, Repr

/-- The handle that a call is about. -/
def Call.handle : Call → Handle
  | .create handle | .register handle | .get handle => handle

/-- The ids after a call, and the id that it answers. -/
def answer (ids : ObjectIds) : Call → ObjectIds × Option ObjectId
  | .create handle => ((ids.create handle).1, some (ids.create handle).2)
  | .register handle => ((ids.register handle).1, some (ids.register handle).2)
  | .get handle => (ids, ids.find? handle)

/-- The ids after calls, one after the other. -/
def answerAll (ids : ObjectIds) (calls : List Call) : ObjectIds :=
  calls.foldl (fun ids call => (ids.answer call).1) ids

/-- Ids that were allocated, oldest first, each with its handle. -/
abbrev Log := List (Handle × ObjectId)

/-- What a call allocates: the id that it answers, if the count of ids moves. -/
def allocates (ids : ObjectIds) (call : Call) : Log :=
  if (ids.answer call).1.next = ids.next then []
  else ((ids.answer call).2.map (call.handle, ·)).toList

/-- What calls allocate, in order. -/
def allocated (ids : ObjectIds) : List Call → Log
  | [] => []
  | call :: calls => ids.allocates call ++ (ids.answer call).1.allocated calls

/-- The id that was allocated for a handle last. -/
def latest (log : Log) (handle : Handle) : Option ObjectId :=
  (log.reverse.find? (·.1 == handle)).map Prod.snd

/-- The id with a number. -/
def numbered (n : Nat) : ObjectId := ⟨UInt64.ofNat n⟩

variable {ids : ObjectIds} {log log' : Log} {calls calls' : List Call} {call : Call}
  {handle handle' : Handle} {id : ObjectId}

theorem allocated_append : ids.allocated (calls ++ calls') =
    ids.allocated calls ++ (ids.answerAll calls).allocated calls' := by
  induction calls generalizing ids with
  | nil => rfl
  | cons call calls ih => simp [allocated, answerAll, ih]

/-! ## What a call does -/

theorem find?_register : (ids.register handle).1.find? handle' =
    if handle = handle' then some ⟨ids.next⟩ else ids.find? handle' := by
  simp [find?, register, Std.ExtTreeMap.getElem?_insert]

theorem find?_register_self :
    (ids.register handle).1.find? handle = some (ids.register handle).2 := by
  rw [find?_register, if_pos rfl]
  rfl

theorem create_of_known (h : ids.find? handle = some id) : ids.create handle = (ids, id) := by
  simp [create, h]

theorem create_of_unknown (h : ids.find? handle = none) :
    ids.create handle = ids.register handle := by
  simp [create, h]

theorem next_register_ne : (ids.register handle).1.next ≠ ids.next := by
  simp [register]

/-- An announcement as new always allocates the next id. -/
theorem allocates_register : ids.allocates (.register handle) = [(handle, ⟨ids.next⟩)] :=
  if_neg next_register_ne

/-- An object that may be known is allocated an id if it is not. -/
theorem allocates_create : ids.allocates (.create handle) =
    if (ids.find? handle).isSome then [] else [(handle, ⟨ids.next⟩)] := by
  cases h : ids.find? handle with
  | none =>
    have hsame : ids.allocates (.create handle) = ids.allocates (.register handle) := by
      rw [allocates, answer, create_of_unknown h]
      rfl
    rw [hsame, allocates_register]
    rfl
  | some id => simp [allocates, answer, create_of_known h]

theorem allocates_get : ids.allocates (.get handle) = [] := if_pos rfl

/-- Whatever is called, the answer is what the handle is bound to afterwards. -/
theorem answer_snd : (ids.answer call).2 = (ids.answer call).1.find? call.handle := by
  cases call with
  | create handle =>
    cases h : ids.find? handle with
    | none =>
      rw [answer, create_of_unknown h]
      exact find?_register_self.symm
    | some id =>
      rw [answer, create_of_known h]
      exact h.symm
  | register handle => exact find?_register_self.symm
  | get handle => rfl

/-- A call leaves the ids as they are, or allocates the next one for its handle. -/
theorem answer_cases (ids : ObjectIds) (call : Call) :
    (ids.allocates call = [] ∧ (ids.answer call).1 = ids) ∨
    (ids.allocates call = [(call.handle, ⟨ids.next⟩)] ∧
      (ids.answer call).1 = (ids.register call.handle).1) := by
  cases call with
  | create handle =>
    rw [allocates_create]
    cases h : ids.find? handle with
    | none => exact .inr ⟨rfl, by simp [answer, create_of_unknown h, Call.handle]⟩
    | some id => exact .inl ⟨rfl, by simp [answer, create_of_known h]⟩
  | register handle => exact .inr ⟨allocates_register, rfl⟩
  | get handle => exact .inl ⟨allocates_get, rfl⟩

theorem length_allocated_singleton_le (ids : ObjectIds) (call : Call) :
    (ids.allocated [call]).length ≤ 1 := by
  rw [allocated, allocated, List.append_nil]
  rcases ids.answer_cases call with ⟨hnone, -⟩ | ⟨hnew, -⟩
  · simp [hnone]
  · simp [hnew]

/-! ## The log -/

theorem latest_append :
    latest (log ++ log') handle = (latest log' handle).or (latest log handle) := by
  rw [latest, List.reverse_append, List.find?_append, Option.map_or]
  rfl

theorem latest_singleton : latest [(handle, id)] handle' =
    if handle = handle' then some id else none := by
  by_cases h : handle = handle' <;> simp [latest, h]

theorem mem_of_latest (h : latest log handle = some id) : (handle, id) ∈ log := by
  obtain ⟨entry, hentry, rfl⟩ := Option.map_eq_some_iff.mp h
  have hkey : entry.1 = handle := by simpa using List.find?_some hentry
  rw [← hkey]
  exact List.mem_reverse.mp (List.mem_of_find?_eq_some hentry)

theorem latest_isSome (h : (handle, id) ∈ log) : (latest log handle).isSome := by
  rw [latest, Option.isSome_map, List.find?_isSome]
  exact ⟨(handle, id), List.mem_reverse.mpr h, by simp⟩

/-- The ids are those that a log has allocated. -/
structure Reflects (log : Log) (ids : ObjectIds) : Prop where
  next : (⟨ids.next⟩ : ObjectId) = numbered log.length
  dense : log.map Prod.snd = (List.range log.length).map numbered
  find?_eq : ∀ handle, ids.find? handle = latest log handle

namespace Reflects

theorem empty : Reflects [] {} where
  next := rfl
  dense := rfl
  find?_eq handle := by simp [find?, latest]

theorem register (h : Reflects log ids) (handle : Handle) :
    Reflects (log ++ [(handle, ⟨ids.next⟩)]) (ids.register handle).1 where
  next := by
    have hnext : ids.next = UInt64.ofNat log.length := congrArg ObjectId.number h.next
    simp [ObjectIds.register, numbered, hnext]
  dense := by
    rw [List.map_append, h.dense, List.length_append, List.length_singleton, List.range_succ,
      List.map_append, h.next]
    rfl
  find?_eq handle' := by
    rw [find?_register, latest_append, latest_singleton, h.find?_eq]
    split <;> rfl

/-- **Every call keeps the log.** -/
theorem answer (h : Reflects log ids) (call : Call) :
    Reflects (log ++ ids.allocates call) (ids.answer call).1 := by
  rcases ids.answer_cases call with ⟨hnone, hsame⟩ | ⟨hnew, hregister⟩
  · rwa [hnone, List.append_nil, hsame]
  · rw [hnew, hregister]
    exact h.register call.handle

theorem answerAll (h : Reflects log ids) (calls : List Call) :
    Reflects (log ++ ids.allocated calls) (ids.answerAll calls) := by
  induction calls generalizing log ids with
  | nil =>
    rw [allocated, List.append_nil]
    exact h
  | cons call calls ih =>
    rw [allocated, ← List.append_assoc]
    exact ih (h.answer call)

/-- Until they are used up, no id is allocated twice. -/
theorem nodup (h : Reflects log ids) (hfew : log.length ≤ UInt64.size) :
    (log.map Prod.snd).Nodup := by
  rw [h.dense]
  refine List.nodup_range.map_on fun m hm n hn hmn => ?_
  have hnat := congrArg (fun id : ObjectId => id.number.toNat) hmn
  simp only [numbered] at hnat
  rw [List.mem_range] at hm hn
  rwa [UInt64.toNat_ofNat_of_lt' (by omega), UInt64.toNat_ofNat_of_lt' (by omega)] at hnat

theorem eq_of_find? (h : Reflects log ids) (hfew : log.length ≤ UInt64.size)
    (hid : ids.find? handle = some id) (hid' : ids.find? handle' = some id) : handle = handle' := by
  rw [h.find?_eq] at hid hid'
  exact congrArg Prod.fst
    (List.inj_on_of_nodup_map (h.nodup hfew) (mem_of_latest hid) (mem_of_latest hid') rfl)

/-- An id that is replaced is not what any handle is bound to later. -/
theorem find?_ne_of_replaced {new : ObjectId} {later : Log}
    (h : Reflects (log ++ (handle, new) :: later) ids)
    (hfew : (log ++ (handle, new) :: later).length ≤ UInt64.size)
    (hold : latest log handle = some id) (handle' : Handle) : ids.find? handle' ≠ some id := by
  intro hid
  rw [h.find?_eq] at hid
  have hnodup := h.nodup hfew
  have hmem := mem_of_latest hold
  -- only the handle that had the id was ever allocated it
  obtain rfl : handle = handle' := congrArg Prod.fst
    (List.inj_on_of_nodup_map hnodup (List.mem_append_left _ hmem) (mem_of_latest hid) rfl)
  rw [latest_append, Option.or_of_isSome (latest_isSome List.mem_cons_self)] at hid
  rw [List.map_append, List.nodup_append] at hnodup
  exact hnodup.2.2 id (List.mem_map_of_mem hmem) id (List.mem_map_of_mem (mem_of_latest hid)) rfl

end Reflects

/-- The ids after calls, and what the calls allocated. -/
theorem reflects (calls : List Call) : Reflects (allocated {} calls) (answerAll {} calls) :=
  Reflects.empty.answerAll calls

/-- **An id that is replaced is not resolved again**, until the ids are used up. -/
theorem find?_ne_of_register {before after : List Call}
    (hfew : (allocated {} (before ++ .register handle :: after)).length ≤ UInt64.size)
    (hold : (answerAll {} before).find? handle = some id) (handle' : Handle) :
    (answerAll {} (before ++ .register handle :: after)).find? handle' ≠ some id := by
  have hreflects := reflects (before ++ .register handle :: after)
  rw [allocated_append, allocated, allocates_register, List.singleton_append] at hfew hreflects
  rw [(reflects before).find?_eq] at hold
  exact hreflects.find?_ne_of_replaced hfew hold handle'

/-- **Identities are dense, fresh and never shared.**  Let calls be made in any order, and let them
allocate fewer ids than there are.

* The ids are allocated in order, from zero on, and they are counted.
* An announcement as new always allocates an id, a possibly known object is allocated one if its
  handle is unknown, and a question allocates none.
* A handle is bound to the id that was allocated for it last, and that is what a call answers.
* Two handles are not bound to one id.
* No handle is bound to an id that was replaced, and no call answers it. -/
theorem identities_never_shared (calls : List Call)
    (hfew : (allocated {} calls).length < UInt64.size) :
    let ids := answerAll {} calls
    let log := allocated {} calls
    (log.map Prod.snd = (List.range log.length).map numbered ∧ ids.size = log.length) ∧
    (∀ handle, ids.allocates (.register handle) = [(handle, numbered log.length)] ∧
      (ids.allocates (.create handle) =
        if (ids.find? handle).isSome then [] else [(handle, numbered log.length)]) ∧
      ids.allocates (.get handle) = []) ∧
    (∀ handle, ids.find? handle = latest log handle) ∧
    (∀ call, (ids.answer call).2 = latest (log ++ ids.allocates call) call.handle) ∧
    (∀ handle handle' id, ids.find? handle = some id → ids.find? handle' = some id →
      handle = handle') ∧
    ∀ before handle after old, calls = before ++ .register handle :: after →
      (answerAll {} before).find? handle = some old →
      (∀ handle', ids.find? handle' ≠ some old) ∧ ∀ call, (ids.answer call).2 ≠ some old := by
  intro ids log
  have hreflects : Reflects log ids := reflects calls
  refine ⟨⟨hreflects.dense, ?_⟩, fun handle => ?_, hreflects.find?_eq, fun call => ?_,
    fun handle handle' id => hreflects.eq_of_find? (Nat.le_of_lt hfew), ?_⟩
  · have hnext : ids.next = UInt64.ofNat log.length := congrArg ObjectId.number hreflects.next
    rw [size, hnext, UInt64.toNat_ofNat_of_lt' hfew]
  · rw [allocates_register, allocates_create, hreflects.next]
    exact ⟨rfl, rfl, allocates_get⟩
  · rw [answer_snd]
    exact (hreflects.answer call).find?_eq call.handle
  · rintro before handle after old hcalls hold
    refine ⟨?_, fun call => ?_⟩
    · subst hcalls
      exact find?_ne_of_register (Nat.le_of_lt hfew) hold
    · -- one more call allocates at most the last id
      have hcalls' : calls ++ [call] = before ++ .register handle :: (after ++ [call]) := by
        rw [hcalls, List.append_assoc]
        rfl
      have hafter : answerAll {} (calls ++ [call]) = (ids.answer call).1 := by
        simp [ids, answerAll]
      have hmore : (allocated {} (calls ++ [call])).length ≤ UInt64.size := by
        rw [allocated_append, List.length_append]
        exact Nat.le_trans (Nat.add_le_add_left (length_allocated_singleton_le ..) _) hfew
      rw [answer_snd, ← hafter, hcalls']
      exact find?_ne_of_register (hcalls' ▸ hmore) hold call.handle

/-- An object, seen twice, whose handle is then announced as new, and another object. -/
def reuse : List Call := [.create 5, .create 5, .register 5, .get 5, .create 7]

theorem reused_handle_named_anew : (allocated {} reuse).length < UInt64.size ∧
    allocated {} reuse = [(5, ⟨0⟩), (5, ⟨1⟩), (7, ⟨2⟩)] ∧
    (answerAll {} reuse).find? 5 = some ⟨1⟩ ∧
    ∀ handle, (answerAll {} reuse).find? handle ≠ some ⟨0⟩ := by
  have hlog : allocated {} reuse = [(5, ⟨0⟩), (5, ⟨1⟩), (7, ⟨2⟩)] := by decide +kernel
  have hfew : (allocated {} reuse).length < UInt64.size := by rw [hlog]; decide
  obtain ⟨-, -, hfind, -, -, hreplaced⟩ := identities_never_shared reuse hfew
  refine ⟨hfew, hlog, ?_, ?_⟩
  · rw [hfind, hlog]
    decide
  · exact (hreplaced [.create 5, .create 5] 5 [.get 5, .create 7] ⟨0⟩ rfl (by decide +kernel)).1

end AccessReplay.ObjectIds
