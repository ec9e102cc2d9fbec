/-
# What the worker does with a message

`MessageWorkerTask::doTask` and `taskCallRoutine` in `corpc_message_terminal.cpp`, with
`registerMessage` and `setBanMessages`.

Flags may change at any time, in another thread.
-/

import Corpc.Message.Decoder

namespace Corpc.Message

open Corpc.Basis Wire List Option

variable {μ η : Type}

/-- `RegisterMessageInfo` with the handler. -/
structure Registration (μ η : Type) where
  proto : Option (List UInt8 → Option μ)
  handle : η
  needCoroutine : Bool
  banned : Bool

/-- `registerMessageMap_` and `otherMessageHandle_` of a terminal. -/
structure Registry (μ η : Type) where
  registerMessageMap : List (Int32 × Registration μ η)
  otherMessageHandle : Option η

def Registry.find (r : Registry μ η) (type : Int32) : Option (Registration μ η) :=
  r.registerMessageMap.lookup type

def Registry.registerMessage (r : Registry μ η) (type : Int32)
    (proto : Option (List UInt8 → Option μ)) (needCoroutine : Bool) (handle : η) :
    Bool × Registry μ η :=
  if (r.find type).isSome then (false, r)
  else (true, { r with
    registerMessageMap := (type, ⟨proto, handle, needCoroutine, false⟩) :: r.registerMessageMap })

def Registry.setBanMessages (r : Registry μ η) (msgTypes : List Int32) : Registry μ η :=
  { r with registerMessageMap := r.registerMessageMap.map fun kv =>
      (kv.1, { kv.2 with banned := msgTypes.contains kv.1 }) }

/-- The terminal as `decode` sees it. -/
def Registry.terminal (r : Registry μ η) (settings : MessageTerminal μ) : MessageTerminal μ :=
  { settings with
    registerMessageMap := r.registerMessageMap.map fun kv => (kv.1, ⟨kv.2.proto, kv.2.banned⟩)
    otherMessageHandle := r.otherMessageHandle.isSome }

theorem lookup_map_snd {κ α β : Type} [BEq κ] [LawfulBEq κ] (f : κ → α → β)
    (l : List (κ × α)) (k : κ) :
    (l.map fun kv => (kv.1, f kv.1 kv.2)).lookup k = (l.lookup k).map (f k) := by
  induction l with
  | nil => rfl
  | cons kv l ih =>
    rw [map_cons, lookup_cons, lookup_cons]
    cases hk : k == kv.1 with
    | true => simp [eq_of_beq hk]
    | false => simpa using ih

theorem Registry.find_setBanMessages (r : Registry μ η) (msgTypes : List Int32) (type : Int32) :
    (r.setBanMessages msgTypes).find type =
      (r.find type).map fun info => { info with banned := msgTypes.contains type } :=
  lookup_map_snd (fun k (info : Registration μ η) => ({ info with banned := msgTypes.contains k } :
    Registration μ η)) r.registerMessageMap type

theorem Registry.lookup_terminal (r : Registry μ η) (settings : MessageTerminal μ) (type : Int32) :
    (r.terminal settings).registerMessageMap.lookup type =
      (r.find type).map fun info => ⟨info.proto, info.banned⟩ :=
  lookup_map_snd (fun _ (info : Registration μ η) => (⟨info.proto, info.banned⟩ :
    RegisterMessageInfo μ)) r.registerMessageMap type

/-- A call of a handler: the type it is registered for, none for `otherMessageHandle_`, and its
arguments. -/
structure Call (μ η : Type) where
  entry : Option Int32
  handle : η
  type : Int32
  tag : UInt16
  msg : TaskMsg μ

/-- What `doTask` comes to: the handlers it has called, or a coroutine for `taskCallRoutine`. -/
inductive Done (μ η : Type)
  | calls (calls : List (Call μ η))
  | coroutine

/-- `doTask` up to the look-up: the acknowledged messages are scrapped. -/
def Connection.acknowledge (conn : Connection μ) (task : MessageWorkerTask μ) : Connection μ :=
  if task.type = msgTypeConnect ∨ task.type = msgTypeClose then conn
  else if conn.terminal.enableSerial then conn.scrapMessages task.reqSerial
  else conn

/-- `MessageWorkerTask::doTask` from the look-up on. -/
def Registry.doTask (r : Registry μ η) (task : MessageWorkerTask μ) : Done μ η :=
  if task.type = msgTypeHeartbeat then .calls []
  else
    let entry := if task.banned then msgTypeBanned else task.type
    match r.find entry with
    | none =>
      match task.banned, r.otherMessageHandle with
      | false, some handle => .calls [⟨none, handle, task.type, task.tag, task.msg⟩]
      | _, _ => .calls []
    | some info =>
      if info.needCoroutine then .coroutine
      else .calls [⟨some entry, info.handle, task.type, task.tag, task.msg⟩]

/-- `MessageWorkerTask::taskCallRoutine`, which does not look whether it has found anything; `none`
if it has not. -/
def Registry.taskCallRoutine (r : Registry μ η) (task : MessageWorkerTask μ) : Option (Call μ η) :=
  (r.find task.type).map fun info =>
    ⟨some task.type, info.handle, task.type, task.tag, task.msg⟩

inductive Stage (μ η : Type)
  | queued (task : MessageWorkerTask μ)
  | coroutine (task : MessageWorkerTask μ)
  | handled (calls : List (Call μ η))

/-- A frame that has led to a task: its type, and whether the type was marked banned in the table
when `decode` took it. -/
structure Taken (μ η : Type) where
  type : Int32
  marked : Bool
  stage : Stage μ η

structure Worker (μ η : Type) where
  registry : Registry μ η
  conn : Connection μ
  messages : List (Taken μ η)

/-- What happens: `setBanMessages` in any thread; the receiver decodes a frame; the worker takes the
task of a message; the coroutine of a message runs. -/
inductive WorkerAction
  | setBanMessages (msgTypes : List Int32)
  | decode (mtime : ℕ) (head body : List UInt8)
  | doTask (i : ℕ)
  | taskCallRoutine (i : ℕ)

/-- The connection as `decode` sees it. -/
def Worker.view (w : Worker μ η) : Connection μ :=
  { w.conn with terminal := w.registry.terminal w.conn.terminal }

def Registry.marks (r : Registry μ η) (type : Int32) : Bool := (r.find type).any (·.banned)

def Worker.step (w : Worker μ η) : WorkerAction → Option (Worker μ η)
  | .setBanMessages msgTypes => some { w with registry := w.registry.setBanMessages msgTypes }
  | .decode mtime head body =>
    (Message.decode mtime w.view head body).map fun (conn, task) =>
      { w with
        conn
        messages := w.messages ++ (task.map fun task =>
          ⟨headType head, w.registry.marks (headType head), .queued task⟩).toList }
  | .doTask i =>
    match w.messages[i]? with
    | some ⟨type, marked, .queued task⟩ =>
      let stage := match w.registry.doTask task with
        | .calls calls => .handled calls
        | .coroutine => .coroutine task
      some { w with conn := w.conn.acknowledge task,
                    messages := w.messages.set i ⟨type, marked, stage⟩ }
    | _ => none
  | .taskCallRoutine i =>
    match w.messages[i]? with
    | some ⟨type, marked, .coroutine task⟩ =>
      (w.registry.taskCallRoutine task).map fun call =>
        { w with messages := w.messages.set i ⟨type, marked, .handled [call]⟩ }
    | _ => none

def Registry.Same (r r' : Registry μ η) : Prop :=
  ∀ type, (r'.find type).map (fun info => { info with banned := false }) =
    (r.find type).map fun info => { info with banned := false }

/-- What a banned message should lead to: the handler for banned messages is called once if there
is one, and no other handler is. -/
def Registry.Respects (r : Registry μ η) (type : Int32) (calls : List (Call μ η)) : Prop :=
  (∀ call ∈ calls, call.entry ≠ some type) ∧
    calls.map (·.entry) = if (r.find msgTypeBanned).isSome then [some msgTypeBanned] else []

def Registry.inline (r : Registry μ η) : Bool :=
  (r.find msgTypeBanned).all fun info => !info.needCoroutine

def Registry.bannedEntries (r : Registry μ η) (type : Int32) : List (Option Int32) :=
  if type < 0 then []
  else
    match r.find msgTypeBanned with
    | none => []
    | some info => if info.needCoroutine then [some type] else [some msgTypeBanned]

/-- The task of a marked message carries the flag, unless it is a heartbeat, which is no message to
the table. -/
structure Registry.Marked (r : Registry μ η) (type : Int32) (task : MessageWorkerTask μ) :
    Prop where
  task_type : task.type = type
  registered : (r.find type).isSome = true
  banned : 0 ≤ type → task.banned = true
  system : type < 0 → type = msgTypeHeartbeat

def Registry.Follows (r : Registry μ η) (type : Int32) : Stage μ η → Prop
  | .queued task => r.Marked type task
  | .coroutine task =>
    r.Marked type task ∧ 0 ≤ type ∧ ∃ info, r.find msgTypeBanned = some info ∧
      info.needCoroutine = true
  | .handled calls => calls.map (·.entry) = r.bannedEntries type

structure Worker.Sound (r : Registry μ η) (w : Worker μ η) : Prop where
  same : r.Same w.registry
  follows : ∀ m ∈ w.messages, m.marked = true → r.Follows m.type m.stage

section Steps

variable {r r' : Registry μ η} {w w' : Worker μ η}

theorem Registry.Same.isSome (h : r.Same r') (type : Int32) :
    (r'.find type).isSome = (r.find type).isSome := by
  simpa using congrArg Option.isSome (h type)

variable {type : Int32}

theorem Registry.Same.find (h : r.Same r') {info : Registration μ η}
    (hf : r'.find type = some info) :
    ∃ info₀, r.find type = some info₀ ∧ info₀.needCoroutine = info.needCoroutine := by
  have heq := h type
  rw [hf, map_some] at heq
  obtain ⟨info₀, h₀, hinfo⟩ := map_eq_some_iff.1 heq.symm
  exact ⟨info₀, h₀, congrArg (·.needCoroutine) hinfo⟩

theorem Registry.Same.setBanMessages (h : r.Same r') (msgTypes : List Int32) :
    r.Same (r'.setBanMessages msgTypes) := by
  intro type
  rw [Registry.find_setBanMessages, Option.map_map]
  exact h type

variable {task : MessageWorkerTask μ} {conn' : Connection μ} {head body : List UInt8}

theorem banned_decodeBody {conn : Connection μ} {reqSerial : UInt32} {info : RegisterMessageInfo μ}
    (hinfo : conn.terminal.registerMessageMap.lookup (headType head) = some info)
    (hbanned : info.banned = true)
    (h : decodeBody conn head body reqSerial = some (conn', some task)) : task.banned = true := by
  have hreg : ∀ body', decodeRegistered conn head body' reqSerial = some (conn', some task) →
      task.banned = true := by
    intro body' h
    simp only [decodeRegistered, hinfo, hbanned, if_true, some.injEq, Prod.mk.injEq] at h
    rw [← h.2]
  unfold decodeBody at h
  split_ifs at h
  · cases h
  · split at h
    · cases h
    · exact hreg _ h
  · exact hreg _ h

theorem banned_decode {mtime : ℕ} {conn : Connection μ} {info : RegisterMessageInfo μ}
    (hinfo : conn.terminal.registerMessageMap.lookup (headType head) = some info)
    (hbanned : info.banned = true) (htype : 0 ≤ headType head)
    (h : decode mtime conn head body = some (conn', some task)) : task.banned = true := by
  unfold decode at h
  rw [if_neg (Int32.not_lt.2 htype)] at h
  dsimp only at h
  split_ifs at h
  · cases h
  · have hinfo' : ({ conn with recvSerial := conn.recvSerial + 1 } :
        Connection μ).terminal.registerMessageMap.lookup (headType head) = some info := hinfo
    exact banned_decodeBody hinfo' hbanned h
  · exact banned_decodeBody hinfo hbanned h

theorem Worker.Sound.decode {mtime : ℕ} (h : w.Sound r)
    (hd : decode mtime w.view head body = some (conn', some task))
    (hmark : w.registry.marks (headType head) = true) : r.Marked (headType head) task := by
  obtain ⟨htype, hkind⟩ := type_decode hd
  obtain ⟨info, hfind, hbanned⟩ := (Option.any_eq_true ..).1 hmark
  have hlookup : w.view.terminal.registerMessageMap.lookup (headType head) =
      some ⟨info.proto, info.banned⟩ := by
    rw [Worker.view, Registry.lookup_terminal, hfind]
    rfl
  refine ⟨htype, ?_, fun hpos => banned_decode hlookup hbanned hpos hd, fun hneg => ?_⟩
  · rw [← h.same.isSome, hfind]
    rfl
  · exact hkind.resolve_left (Int32.not_le.2 hneg)

theorem Registry.Marked.doTask (h : r.Marked type task) (hsame : r.Same r') :
    r.Follows type (match r'.doTask task with
      | .calls calls => .handled calls
      | .coroutine => .coroutine task) := by
  by_cases hneg : type < 0
  · -- a heartbeat
    have hbeat : task.type = msgTypeHeartbeat := h.task_type.trans (h.system hneg)
    simp [Registry.doTask, hbeat, Registry.Follows, Registry.bannedEntries, hneg]
  · have hpos : 0 ≤ type := Int32.not_lt.1 hneg
    have hbeat : task.type ≠ msgTypeHeartbeat := by
      rw [h.task_type]
      rintro rfl
      exact absurd hpos (by decide)
    simp only [Registry.doTask, if_neg hbeat, h.banned hpos, if_true]
    cases hfind : r'.find msgTypeBanned with
    | none =>
      have hnone : r.find msgTypeBanned = none := by
        have hsome := hsame.isSome msgTypeBanned
        rw [hfind] at hsome
        simpa using hsome.symm
      simp [Registry.Follows, Registry.bannedEntries, hneg, hnone]
    | some info =>
      obtain ⟨info₀, h₀, hco⟩ := hsame.find hfind
      cases hneed : info.needCoroutine with
      | true =>
        simp only [hneed, if_true, Registry.Follows]
        exact ⟨h, hpos, info₀, h₀, hco.trans hneed⟩
      | false =>
        simp [hneed, Registry.Follows, Registry.bannedEntries, hneg, h₀, hco]

theorem Registry.Marked.taskCallRoutine (h : r.Marked type task) (hsame : r.Same r') :
    ∃ call, r'.taskCallRoutine task = some call ∧ call.entry = some type := by
  obtain ⟨info, hinfo⟩ : ∃ info, r'.find task.type = some info := by
    rw [← isSome_iff_exists, hsame.isSome, h.task_type]
    exact h.registered
  refine ⟨_, by rw [Registry.taskCallRoutine, hinfo]; rfl, ?_⟩
  rw [h.task_type]

theorem mem_set_messages {messages : List (Taken μ η)} {i : ℕ} {m m' : Taken μ η}
    (h : m' ∈ messages.set i m) : m' = m ∨ m' ∈ messages :=
  (mem_or_eq_of_mem_set h).symm

theorem Worker.Sound.step {a : WorkerAction} (h : w.Sound r) (hs : w.step a = some w') :
    w'.Sound r := by
  cases a with
  | setBanMessages msgTypes =>
    cases hs
    exact ⟨h.same.setBanMessages msgTypes, h.follows⟩
  | decode mtime head body =>
    obtain ⟨⟨conn', task⟩, hd, rfl⟩ := map_eq_some_iff.1 hs
    refine ⟨h.same, fun m hm hmark => ?_⟩
    rcases mem_append.1 hm with hm | hm
    · exact h.follows m hm hmark
    · cases task with
      | none => cases hm
      | some task =>
        obtain rfl := mem_singleton.1 hm
        exact h.decode hd hmark
  | doTask i =>
    simp only [Worker.step] at hs
    split at hs
    · rename_i type marked task hget
      cases hs
      refine ⟨h.same, fun m hm hmark => ?_⟩
      rcases mem_set_messages hm with rfl | hm
      · have hfollows := h.follows _ (mem_of_getElem? hget) hmark
        exact Registry.Marked.doTask hfollows h.same
      · exact h.follows m hm hmark
    · cases hs
  | taskCallRoutine i =>
    simp only [Worker.step] at hs
    split at hs
    · rename_i type marked task hget
      obtain ⟨call, hcall, rfl⟩ := map_eq_some_iff.1 hs
      refine ⟨h.same, fun m hm hmark => ?_⟩
      rcases mem_set_messages hm with rfl | hm
      · obtain ⟨hmarked, hpos, info, hinfo, hneed⟩ :=
          h.follows _ (mem_of_getElem? hget) hmark
        obtain ⟨call', hcall', hentry⟩ := hmarked.taskCallRoutine h.same
        obtain rfl := some.inj (hcall.symm.trans hcall')
        simp [Registry.Follows, Registry.bannedEntries, Int32.not_lt.2 hpos, hinfo, hneed, hentry]
      · exact h.follows m hm hmark
    · cases hs

end Steps

theorem Registry.respects_iff {r : Registry μ η} {type : Int32} {calls : List (Call μ η)}
    (h : calls.map (·.entry) = r.bannedEntries type) :
    r.Respects type calls ↔
      (r.find msgTypeBanned).isNone = true ∨ (r.inline = true ∧ 0 ≤ type) := by
  have hnot : (∀ call ∈ calls, call.entry ≠ some type) ↔ some type ∉ r.bannedEntries type := by
    rw [← h]
    simp
  rw [Registry.Respects, hnot, h]
  unfold Registry.bannedEntries Registry.inline
  cases hfind : r.find msgTypeBanned with
  | none => simp
  | some info =>
    by_cases hneg : type < 0
    · simp [hneg, Int32.not_le.2 hneg]
    · have hown : type ≠ msgTypeBanned := by
        rintro rfl
        exact hneg (by decide)
      cases hneed : info.needCoroutine with
      | true => simp [hneg, hneed]
      | false => simpa [hneg, hneed, Int32.not_lt.1 hneg] using hown

/-- **When a banned message does not reach its own handler**: there is no handler for banned
messages, or that one was registered without `needCoroutine` and the message is not a heartbeat. -/
theorem banned_handled_iff (r : Registry μ η) (conn : Connection μ) (acts : List WorkerAction)
    (w : Worker μ η) (h : run Worker.step ⟨r, conn, []⟩ acts = some w) :
    (∀ m ∈ w.messages, m.marked = true → ∀ calls, m.stage = .handled calls →
      (r.Respects m.type calls ↔
        (r.find msgTypeBanned).isNone = true ∨ (r.inline = true ∧ 0 ≤ m.type))) ∧
    (∀ i m task, w.messages[i]? = some m → m.marked = true → m.stage = .coroutine task →
      (w.step (.taskCallRoutine i)).isSome = true) := by
  have hw : w.Sound r := run_invariant (I := Worker.Sound r)
    (fun _ _ _ hI hs => hI.step hs) ⟨fun _ => rfl, fun _ hm => absurd hm not_mem_nil⟩ h
  refine ⟨fun m hm hmark calls hstage => ?_, fun i m task hget hmark hstage => ?_⟩
  · have hfollows := hw.follows m hm hmark
    rw [hstage] at hfollows
    exact Registry.respects_iff hfollows
  · have hfollows := hw.follows m (mem_of_getElem? hget) hmark
    rw [hstage] at hfollows
    obtain ⟨type, marked, stage⟩ := m
    obtain rfl : stage = .coroutine task := hstage
    obtain ⟨call, hcall, -⟩ := Registry.Marked.taskCallRoutine hfollows.1 hw.same
    simp only [Worker.step, hget, hcall]
    rfl

/-- A handler for messages of type 1 and one for banned messages; the handlers are named by the
types they are registered for. -/
def banTable (needCoroutine : Bool) : Registry Unit Int32 :=
  ((Registry.registerMessage ⟨[], none⟩ 1 none false 1).2.registerMessage msgTypeBanned none
    needCoroutine msgTypeBanned).2

/-- Type 1 is banned, a message of this type comes, the ban is lifted, and the worker takes the
message. -/
def banActions : List WorkerAction :=
  [.setBanMessages [1], .decode 0 (encodeHead 0 1 0 0 0 1 0) [], .setBanMessages [], .doTask 0]

def Worker.entries (w : Worker μ η) : List (Int32 × Bool × Option (List (Option Int32))) :=
  w.messages.map fun m => (m.type, m.marked, match m.stage with
    | .handled calls => some (calls.map (·.entry))
    | _ => none)

theorem exists_of_entries {s : Worker μ η} {acts : List WorkerAction} {type : Int32}
    {marked : Bool} {es : List (Option Int32)}
    (h : (run Worker.step s acts).map (·.entries) = some [(type, marked, some es)]) :
    ∃ w m calls, run Worker.step s acts = some w ∧ m ∈ w.messages ∧ m.type = type ∧
      m.marked = marked ∧ m.stage = .handled calls ∧ calls.map (·.entry) = es := by
  obtain ⟨w, hrun, hw⟩ := map_eq_some_iff.1 h
  obtain ⟨m, hm, hentry⟩ := map_eq_singleton_iff.1 hw
  obtain ⟨type', marked', stage⟩ := m
  cases stage with
  | handled calls =>
    cases hentry
    exact ⟨w, _, calls, hrun, hm ▸ mem_singleton_self _, rfl, rfl, rfl, rfl⟩
  | queued task | coroutine task => cases hentry

theorem banned_handled_inline :
    ∃ w m calls, run Worker.step ⟨banTable false, buildConnection openTerminal none, []⟩
        banActions = some w ∧ m ∈ w.messages ∧ m.type = 1 ∧ m.marked = true ∧
      m.stage = .handled calls ∧ (banTable false).Respects m.type calls := by
  obtain ⟨w, m, calls, hrun, hm, htype, hmark, hstage, -⟩ := exists_of_entries (show
    (run Worker.step ⟨banTable false, buildConnection openTerminal none, []⟩ banActions).map
      (·.entries) = some [(1, true, some [some msgTypeBanned])] by decide +kernel)
  have hiff := (banned_handled_iff _ _ _ _ hrun).1 m hm hmark calls hstage
  exact ⟨w, m, calls, hrun, hm, htype, hmark, hstage, hiff.2 (.inr ⟨rfl, by rw [htype]; decide⟩)⟩

/-- With `needCoroutine`, the message reaches the handler of its own type, and not the handler for
banned messages. -/
theorem banned_message_handled :
    ∃ w m calls, run Worker.step ⟨banTable true, buildConnection openTerminal none, []⟩
        (banActions ++ [.taskCallRoutine 0]) = some w ∧ m ∈ w.messages ∧ m.type = 1 ∧
      m.marked = true ∧ m.stage = .handled calls ∧ calls.map (·.entry) = [some 1] ∧
      ¬(banTable true).Respects m.type calls := by
  obtain ⟨w, m, calls, hrun, hm, htype, hmark, hstage, hcalls⟩ := exists_of_entries (show
    (run Worker.step ⟨banTable true, buildConnection openTerminal none, []⟩
      (banActions ++ [.taskCallRoutine 0])).map (·.entries) = some [(1, true, some [some 1])] by
        decide +kernel)
  refine ⟨w, m, calls, hrun, hm, htype, hmark, hstage, hcalls, fun h => ?_⟩
  have hentries := h.2
  rw [hcalls] at hentries
  exact absurd hentries (by decide)

end Corpc.Message
