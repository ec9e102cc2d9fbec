/-
# The lock-free queue is a queue

The refinement of `Fifo` by `MPSC_NoLockQueue`.  The nodes of the queue form three lists: `inn`
at `head_`, newest first; `rest`, what the consumer has detached and not yet reversed, newest
first; and `out`, oldest first.
-/

import Corpc.Queue.MPSC

namespace Corpc.Queue

open Corpc.Basis Function List Option Consumer

section Places

variable {ι A α : Type}

def Producer.node : Producer A α → Option A
  | .setValue _ a | .setNext _ a | .exchange _ a => some a
  | _ => none

def Producer.stored : Producer A α → Option (Option α × A)
  | .setNext v a | .exchange v a => some (v, a)
  | _ => none

/-- How far a call of `push` is. -/
def Producer.phase : Producer A α → Phase (Op α) (Option α)
  | .idle => .idle
  | .new v | .setValue v _ | .setNext v _ | .exchange v _ => .called (.push v)
  | .done => .effected none

/-- How far a call of `pop` is. -/
def Consumer.phase : Consumer A α → Phase (Op α) (Option α)
  | .idle => .idle
  | .take true => .effected none
  | .unlink ret | .delete ret _ | .done ret => .effected ret
  | _ => .called .pop

def State.phase (s : State ι A α) : Option ι → Phase (Op α) (Option α)
  | none => s.consumer.phase
  | some p => (s.producer p).phase

def State.rest (s : State ι A α) : Option A :=
  match s.consumer with
  | .detached => s.outqueue
  | .reverse n1 => n1
  | .relink n1 _ => some n1
  | .advance _ n2 => n2
  | _ => none

/-- Where the list in the order of the queue starts.  Before the detaching
compare-exchange `outqueue_` is only the value it expects in `head_`. -/
def State.out (s : State ι A α) : Option A :=
  match s.consumer with
  | .detach | .detached => none
  | .advance n1 _ => some n1
  | _ => s.outqueue

def State.loose (s : State ι A α) : List A :=
  match s.consumer with
  | .delete _ tnode => [tnode]
  | _ => []

/-- The nodes at the front of `out` whose value `pop` has read. -/
def State.taken (s : State ι A α) : ℕ :=
  match s.consumer with
  | .unlink _ => 1
  | _ => 0

def State.nodes (s : State ι A α) (inn rest out : List (A × Option α)) : List A :=
  addrs inn ++ addrs rest ++ addrs out ++ s.loose

def State.contents (s : State ι A α) (inn rest out : List (A × Option α)) : List (Option α) :=
  (values rest).reverse ++ (values out).drop s.taken ++ (values inn).reverse

end Places

/-- The nodes of the producers: they are in use, not in the queue, nobody else's, and
hold the argument once it is stored. -/
structure Private {ι A α : Type} (heap : A → Option (Cell A (Option α)))
    (producer : ι → Producer A α) (nodes : List A) : Prop where
  used : ∀ {p a}, (producer p).node = some a → heap a ≠ none
  apart : ∀ {p a}, (producer p).node = some a → a ∉ nodes
  unique : ∀ {p p' a}, (producer p).node = some a → (producer p').node = some a → p = p'
  stored : ∀ {p v a}, (producer p).stored = some (v, a) → ∃ q, heap a = some ⟨v, q⟩

def State.Local {ι A α : Type} (s : State ι A α) (inn rest out : List (A × Option α)) : Prop :=
  match s.consumer with
  | .testHead => s.outqueue = none
  | .loadHead => s.outqueue = none ∧ s.head ≠ none
  | .detach => s.head ≠ none ∧ out = [] ∧ ∃ cells, cells <:+ inn ∧ Chain s.heap s.outqueue cells
  | .detached | .unlink _ => s.outqueue ≠ none
  | .reverse n1 => n1 ≠ none ∨ s.outqueue ≠ none
  | .relink n1 n2 => ∃ v cells, rest = (n1, v) :: cells ∧ Chain s.heap n2 cells
  | .advance n1 _ => ∃ v cells, out = (n1, v) :: cells ∧ Chain s.heap s.outqueue cells
  | .take effected => effected = true ↔ s.outqueue = none
  | _ => True

variable {ι A α : Type}

section Phases

variable {s s' : State ι A α}

theorem phase_of_silent (hp : s'.producer = s.producer)
    (hc : s'.consumer.phase = s.consumer.phase) : s'.phase = s.phase := by
  funext t
  cases t with
  | none => exact hc
  | some p => exact congrArg (fun f => Producer.phase (f p)) hp

theorem phase_consumer [DecidableEq ι] (hp : s'.producer = s.producer) :
    s'.phase = update s.phase none s'.consumer.phase := by
  funext t
  cases t with
  | none => rw [update_self]; rfl
  | some p =>
    rw [update_of_ne (by nofun)]
    exact congrArg (fun f => Producer.phase (f p)) hp

theorem phase_setProducer [DecidableEq ι] (s : State ι A α) (p : ι) (pc : Producer A α) :
    (s.setProducer p pc).phase = update s.phase (some p) pc.phase := by
  funext t
  cases t with
  | none => rw [update_of_ne (by nofun)]; rfl
  | some p' =>
    by_cases h : p' = p
    · subst h
      rw [update_self]
      exact congrArg Producer.phase (update_self ..)
    · rw [update_of_ne (fun h' => h (some.inj h'))]
      exact congrArg Producer.phase (update_of_ne h ..)

end Phases

variable {pc : Producer A α} {v : Option α}

theorem Producer.node_of_stored {a : A} (h : pc.stored = some (v, a)) : pc.node = some a := by
  cases pc <;> simp_all [Producer.stored, Producer.node]

section Private

variable {heap : A → Option (Cell A (Option α))} {producer : ι → Producer A α}
  {nodes nodes' : List A} {p : ι} {a : A}

theorem Private.subset (h : Private heap producer nodes) (hsub : nodes' ⊆ nodes) :
    Private heap producer nodes' :=
  { h with apart := fun hn ha => h.apart hn (hsub ha) }

theorem Private.write_node [DecidableEq A] (h : Private heap producer nodes) (ha : a ∈ nodes)
    (cell : Option (Cell A (Option α))) :
    Private (update heap a cell) producer nodes := by
  have hne : ∀ {p b}, (producer p).node = some b → b ≠ a := by
    rintro p b hn rfl
    exact h.apart hn ha
  refine ⟨fun hn => ?_, h.apart, h.unique, fun hs => ?_⟩
  · rw [update_of_ne (hne hn)]
    exact h.used hn
  · rw [update_of_ne (hne (Producer.node_of_stored hs))]
    exact h.stored hs

theorem Private.write_own [DecidableEq A] [DecidableEq ι] (h : Private heap producer nodes)
    (ha : a ∉ nodes) (hother : ∀ p', (producer p').node = some a → p' = p)
    (cell : Cell A (Option α)) (hnode : pc.node = some a)
    (hstored : ∀ v, pc.stored = some (v, a) → cell.value = v) :
    Private (update heap a (some cell)) (update producer p pc) nodes := by
  -- the node of another producer is another one
  have hne : ∀ {p' b}, p' ≠ p → (producer p').node = some b → b ≠ a := by
    rintro p' b hp hb rfl
    exact hp (hother p' hb)
  constructor
  · intro p' b hb
    by_cases hp : p' = p
    · subst hp
      rw [update_self, hnode] at hb
      rw [← some.inj hb, update_self]
      nofun
    · rw [update_of_ne hp] at hb
      rw [update_of_ne (hne hp hb)]
      exact h.used hb
  · intro p' b hb
    by_cases hp : p' = p
    · subst hp
      rw [update_self, hnode] at hb
      exact some.inj hb ▸ ha
    · rw [update_of_ne hp] at hb
      exact h.apart hb
  · intro p₁ p₂ b h₁ h₂
    by_cases hp₁ : p₁ = p <;> by_cases hp₂ : p₂ = p
    · rw [hp₁, hp₂]
    · subst hp₁
      rw [update_self, hnode] at h₁
      rw [update_of_ne hp₂] at h₂
      exact absurd (some.inj h₁).symm (hne hp₂ h₂)
    · subst hp₂
      rw [update_self, hnode] at h₂
      rw [update_of_ne hp₁] at h₁
      exact absurd (some.inj h₂).symm (hne hp₁ h₁)
    · rw [update_of_ne hp₁] at h₁
      rw [update_of_ne hp₂] at h₂
      exact h.unique h₁ h₂
  · intro p' v b hb
    by_cases hp : p' = p
    · subst hp
      rw [update_self] at hb
      obtain rfl := some.inj ((Producer.node_of_stored hb).symm.trans hnode)
      exact ⟨cell.next, by rw [update_self, ← hstored v hb]⟩
    · rw [update_of_ne hp] at hb
      rw [update_of_ne (hne hp (Producer.node_of_stored hb))]
      exact h.stored hb

theorem Private.release [DecidableEq ι] (h : Private heap producer nodes) (hnode : pc.node = none)
    (hsub : ∀ b ∈ nodes', b ∈ nodes ∨ (producer p).node = some b) :
    Private heap (update producer p pc) nodes' := by
  have hother : ∀ {p' b}, (update producer p pc p').node = some b →
      p' ≠ p ∧ (producer p').node = some b := by
    intro p' b hb
    by_cases hp : p' = p
    · subst hp
      rw [update_self, hnode] at hb
      nomatch hb
    · rw [update_of_ne hp] at hb
      exact ⟨hp, hb⟩
  refine ⟨fun hb => h.used (hother hb).2, ?_, fun h₁ h₂ => h.unique (hother h₁).2 (hother h₂).2, ?_⟩
  · intro p' b hb hmem
    obtain ⟨hp, hb⟩ := hother hb
    rcases hsub b hmem with hmem | hmem
    · exact h.apart hb hmem
    · exact hp (h.unique hb hmem)
  · intro p' v b hb
    obtain ⟨hp, -⟩ := hother (Producer.node_of_stored hb)
    rw [update_of_ne hp] at hb
    exact h.stored hb

end Private

variable [DecidableEq ι] [DecidableEq α]

/-- **The invariant of the queue.** -/
structure Shape (s : State ι A α) (inn rest out : List (A × Option α)) : Prop where
  chain_inn : Chain s.heap s.head inn
  chain_rest : Chain s.heap s.rest rest
  chain_out : Chain s.heap s.out out
  nodup : (s.nodes inn rest out).Nodup
  loose : ∀ a ∈ s.loose, s.heap a ≠ none
  producers : Private s.heap s.producer (s.nodes inn rest out)
  consumer : s.Local inn rest out
  fault : s.fault = false
  lin : Linearizes Fifo.step [] s.log (s.contents inn rest out) s.phase

theorem shape_init : Shape (State.init ι A α) [] [] [] where
  chain_inn := .nil
  chain_rest := .nil
  chain_out := .nil
  nodup := nodup_nil
  loose := nofun
  producers := ⟨nofun, nofun, nofun, nofun⟩
  consumer := trivial
  fault := rfl
  lin := by
    have hphase : (State.init ι A α).phase = fun _ => .idle := by
      funext t
      cases t <;> rfl
    rw [hphase]
    exact linearizes_nil _ _

variable {s s' : State ι A α} {inn rest out : List (A × Option α)} {p : ι} {a : A}

theorem Shape.used (h : Shape s inn rest out) (ha : a ∈ s.nodes inn rest out) :
    s.heap a ≠ none := by
  simp only [State.nodes, mem_append] at ha
  rcases ha with ((ha | ha) | ha) | ha
  · exact h.chain_inn.heap_ne_none ha
  · exact h.chain_rest.heap_ne_none ha
  · exact h.chain_out.heap_ne_none ha
  · exact h.loose a ha

theorem Shape.setProducer (h : Shape s inn rest out)
    (hnode : pc.node = none) {e : Event (Option ι) (Op α) (Option α)}
    (hlin : Linearizes Fifo.step [] (s.log ++ [e]) (s.contents inn rest out)
      (update s.phase (some p) pc.phase)) :
    Shape ((s.setProducer p pc).record e) inn rest out where
  chain_inn := h.chain_inn
  chain_rest := h.chain_rest
  chain_out := h.chain_out
  nodup := h.nodup
  loose := h.loose
  producers := h.producers.release hnode fun _ => Or.inl
  consumer := h.consumer
  fault := h.fault
  lin := by
    have hphase : ((s.setProducer p pc).record e).phase = (s.setProducer p pc).phase := rfl
    rw [hphase, phase_setProducer]
    exact hlin

theorem Shape.exchange (h : Shape s inn rest out)
    (hpc : s.producer p = .exchange v a) (ha : s.heap a = some ⟨v, s.head⟩) :
    Shape (({ s with head := some a }.setProducer p .done).record
      (.effect (some p) (.push v) none)) ((a, v) :: inn) rest out := by
  have hnode : (s.producer p).node = some a := by rw [hpc]; rfl
  have hapart := h.producers.apart hnode
  have hcontents : s.contents ((a, v) :: inn) rest out = s.contents inn rest out ++ [v] := by
    simp [State.contents]
  refine ⟨.cons ha h.chain_inn, h.chain_rest, h.chain_out, h.nodup.cons hapart, h.loose, ?_, ?_,
    h.fault, ?_⟩
  · refine h.producers.release rfl fun b hb => ?_
    rcases mem_cons.1 hb with rfl | hb
    · exact .inr hnode
    · exact .inl hb
  · have hlocal := h.consumer
    unfold State.Local at hlocal ⊢
    dsimp only [State.record, State.setProducer]
    cases hc : s.consumer with
    | loadHead =>
      simp only [hc] at hlocal ⊢
      exact ⟨hlocal.1, by nofun⟩
    | detach =>
      simp only [hc] at hlocal ⊢
      obtain ⟨-, hnil, cells, hsuf, hcells⟩ := hlocal
      exact ⟨by nofun, hnil, cells, hsuf.trans (suffix_cons _ _), hcells⟩
    | idle | start | delete ret tnode | done ret => trivial
    | _ => simpa only [hc] using hlocal
  · have hphase : s.phase (some p) = .called (.push v) := by
      simp [State.phase, hpc, Producer.phase]
    have hpush : Fifo.step (s.contents inn rest out) (.push v, none) =
        some (s.contents inn rest out ++ [v]) := rfl
    have hlin := h.lin.effect hphase hpush
    rw [← hcontents] at hlin
    have hs' : (({ s with head := some a }.setProducer p .done).record
        (.effect (some p) (.push v) none)).phase = (s.setProducer p .done).phase := rfl
    rw [hs', phase_setProducer]
    exact hlin

variable [DecidableEq A]

omit [DecidableEq α] in
theorem State.Local.write_own (h : s.Local inn rest out) (ha : a ∉ s.nodes inn rest out)
    (cell : Cell A (Option α)) (pc : Producer A α) :
    ((s.write a cell).setProducer p pc).Local inn rest out := by
  simp only [State.nodes, mem_append, not_or] at ha
  obtain ⟨⟨⟨hinn, hrest⟩, hout⟩, -⟩ := ha
  unfold State.Local at h ⊢
  dsimp only [State.write, State.setProducer]
  cases hc : s.consumer with
  | detach =>
    simp only [hc] at h ⊢
    obtain ⟨hhead, hnil, cells, hsuf, hcells⟩ := h
    have hmem : a ∉ addrs cells := fun hm => hinn ((hsuf.map Prod.fst).subset hm)
    exact ⟨hhead, hnil, cells, hsuf, hcells.update hmem _⟩
  | relink n1 n2 =>
    simp only [hc] at h ⊢
    obtain ⟨v, cells, rfl, hcells⟩ := h
    exact ⟨v, cells, rfl, hcells.update (fun hm => hrest (mem_cons_of_mem _ hm)) _⟩
  | advance n1 n2 =>
    simp only [hc] at h ⊢
    obtain ⟨v, cells, rfl, hcells⟩ := h
    exact ⟨v, cells, rfl, hcells.update (fun hm => hout (mem_cons_of_mem _ hm)) _⟩
  | idle | start | delete ret tnode | done ret => trivial
  | _ => simpa only [hc] using h

theorem Shape.write_own (h : Shape s inn rest out) (ha : a ∉ s.nodes inn rest out)
    (hother : ∀ p', (s.producer p').node = some a → p' = p) (cell : Cell A (Option α))
    (hnode : pc.node = some a) (hstored : ∀ v, pc.stored = some (v, a) → cell.value = v)
    (hphase : pc.phase = (s.producer p).phase) :
    Shape ((s.write a cell).setProducer p pc) inn rest out := by
  have hout := ha
  simp only [State.nodes, mem_append, not_or] at hout
  obtain ⟨⟨⟨hinn, hrest⟩, hout⟩, hloose⟩ := hout
  refine ⟨h.chain_inn.update hinn _, h.chain_rest.update hrest _, h.chain_out.update hout _,
    h.nodup, ?_, h.producers.write_own ha hother cell hnode hstored,
    h.consumer.write_own ha cell pc, h.fault, ?_⟩
  · intro b hb
    have hne : b ≠ a := fun hba => hloose (hba ▸ hb)
    have hkept : ((s.write a cell).setProducer p pc).heap b = s.heap b :=
      update_of_ne hne ..
    rw [hkept]
    exact h.loose b hb
  · have hsame : ((s.write a cell).setProducer p pc).phase = s.phase := by
      rw [phase_setProducer, hphase]
      exact update_eq_self (some p) s.phase
    rw [hsame]
    exact h.lin

theorem Shape.write_node (h : Shape s inn rest out) (ha : (s.producer p).node = some a)
    (cell : Cell A (Option α)) (hnode : pc.node = some a)
    (hstored : ∀ v, pc.stored = some (v, a) → cell.value = v)
    (hphase : pc.phase = (s.producer p).phase) :
    Shape ((s.write a cell).setProducer p pc) inn rest out :=
  h.write_own (h.producers.apart ha) (fun _ ha' => h.producers.unique ha' ha) cell hnode hstored
    hphase

theorem Shape.produce (h : Shape s inn rest out) {spurious : Bool}
    (hs : s.produce p spurious = some s') : ∃ inn, Shape s' inn rest out := by
  unfold State.produce at hs
  cases hpc : s.producer p with
  | idle | new v => simp [hpc] at hs
  | setValue v a =>
    have hnode : (s.producer p).node = some a := by rw [hpc]; rfl
    obtain ⟨cell, hcell⟩ := ne_none_iff_exists'.1 (h.producers.used hnode)
    simp only [hpc, State.access, hcell, some.injEq] at hs
    rw [← hs]
    exact ⟨inn, h.write_node hnode _ rfl (by rintro v' ⟨⟩; rfl) (by rw [hpc]; rfl)⟩
  | setNext v a =>
    have hnode : (s.producer p).node = some a := by rw [hpc]; rfl
    obtain ⟨q, hcell⟩ := h.producers.stored (p := p) (v := v) (a := a) (by rw [hpc]; rfl)
    simp only [hpc, State.access, hcell, some.injEq] at hs
    rw [← hs]
    exact ⟨inn, h.write_node hnode _ rfl (by rintro v' ⟨⟩; rfl) (by rw [hpc]; rfl)⟩
  | exchange v a =>
    have hnode : (s.producer p).node = some a := by rw [hpc]; rfl
    obtain ⟨q, hcell⟩ := h.producers.stored (p := p) (v := v) (a := a) (by rw [hpc]; rfl)
    simp only [hpc, State.access, hcell, some.injEq] at hs
    split_ifs at hs with hx
    · rw [← hs]
      exact ⟨_, h.exchange hpc (by rw [hcell, hx.1])⟩
    · have hsame : s.write a ⟨v, s.head⟩ =
          (s.write a ⟨v, s.head⟩).setProducer p (.exchange v a) := by
        rw [← hpc]
        exact congrArg (fun f => { s.write a ⟨v, s.head⟩ with producer := f })
          (update_eq_self p s.producer).symm
      rw [← hs, hsame]
      exact ⟨inn, h.write_node hnode _ rfl (by rintro v' ⟨⟩; rfl) (by rw [hpc])⟩
  | done =>
    simp only [hpc, some.injEq] at hs
    rw [← hs]
    have hphase : s.phase (some p) = .effected none := by simp [State.phase, hpc, Producer.phase]
    exact ⟨inn, h.setProducer rfl (h.lin.ret hphase)⟩

variable {c : Consumer A α}

omit [DecidableEq A] in
theorem Shape.advance (h : Shape s inn rest out) {head outqueue : Option A}
    {inn' rest' out' : List (A × Option α)}
    (hs : s' = { s with head := head, outqueue := outqueue, consumer := c })
    (hinn : Chain s.heap head inn') (hrest : Chain s.heap s'.rest rest')
    (hout : Chain s.heap s'.out out')
    (hnodes : (s'.nodes inn' rest' out').Perm (s.nodes inn rest out))
    (hlocal : s'.Local inn' rest' out')
    (hcontents : s'.contents inn' rest' out' = s.contents inn rest out)
    (hphase : c.phase = s.consumer.phase) : Shape s' inn' rest' out' := by
  have hheap : s'.heap = s.heap := by rw [hs]
  refine ⟨?_, hheap ▸ hrest, hheap ▸ hout, hnodes.nodup_iff.2 h.nodup, ?_, ?_, hlocal, ?_, ?_⟩
  · rw [hs]
    exact hinn
  · intro b hb
    rw [hheap]
    exact h.used (hnodes.subset (mem_append_right _ hb))
  · rw [hs] at hnodes ⊢
    exact h.producers.subset hnodes.subset
  · rw [hs]
    exact h.fault
  · have hsame : s'.phase = s.phase := phase_of_silent (by rw [hs]) (by rw [hs]; exact hphase)
    rw [hsame, hcontents, hs]
    exact h.lin

variable {n2 : Option A}

theorem Shape.relink (h : Shape s inn rest out) {n1 : A}
    (hc : s.consumer = .relink n1 n2) {cell : Cell A (Option α)} (hcell : s.heap n1 = some cell) :
    ∃ rest' out', Shape { s.write n1 { cell with next := s.outqueue } with
      consumer := .advance n1 n2 } inn rest' out' := by
  have hlocal := h.consumer
  have hrest := h.chain_rest
  have hout := h.chain_out
  simp only [State.Local, State.rest, State.out, hc] at hlocal hrest hout
  obtain ⟨v, cells, rfl, hcells⟩ := hlocal
  obtain ⟨w, q, cells', hn1, heq, -⟩ := chain_some.1 hrest
  obtain ⟨⟨-, rfl⟩, rfl⟩ := by simpa using heq
  obtain rfl := some.inj (hcell.symm.trans hn1)
  -- the node goes from the front of one list to the front of the other
  have hperm : (s.nodes inn ((n1, v) :: cells) out).Perm (n1 :: s.nodes inn cells out) := by
    simp only [State.nodes, addrs_cons, append_assoc, cons_append]
    exact perm_middle
  have hnodup := hperm.nodup_iff.1 h.nodup
  have hn1 : n1 ∉ addrs inn ∧ n1 ∉ addrs cells ∧ n1 ∉ addrs out := by
    have hn := (nodup_cons.1 hnodup).1
    simp only [State.nodes, mem_append, not_or] at hn
    exact ⟨hn.1.1.1, hn.1.1.2, hn.1.2⟩
  have hloose : s.loose = [] := by simp [State.loose, hc]
  have hperm' : (addrs inn ++ addrs cells ++ addrs ((n1, v) :: out) ++ []).Perm
      (s.nodes inn ((n1, v) :: cells) out) := by
    refine Perm.trans ?_ hperm.symm
    simp only [State.nodes, hloose, addrs_cons, append_nil]
    exact perm_middle
  refine ⟨cells, (n1, v) :: out, ?_, ?_, ?_, ?_, nofun, ?_, ?_, h.fault, ?_⟩
  · exact h.chain_inn.update hn1.1 _
  · exact hcells.update hn1.2.1 _
  · exact .cons (update_self ..) (hout.update hn1.2.2 _)
  · exact hperm'.nodup_iff.2 h.nodup
  · have hmem : n1 ∈ s.nodes inn ((n1, v) :: cells) out := hperm.symm.subset mem_cons_self
    exact (h.producers.write_node hmem _).subset hperm'.subset
  · exact ⟨v, out, rfl, hout.update hn1.2.2 _⟩
  · have hlin := h.lin
    have hsame : State.phase { s.write n1 ⟨v, s.outqueue⟩ with consumer := .advance n1 n2 } =
        s.phase := phase_of_silent rfl (by rw [hc]; rfl)
    rw [hsame]
    have hcontents : State.contents { s.write n1 ⟨v, s.outqueue⟩ with consumer := .advance n1 n2 }
        inn cells ((n1, v) :: out) = s.contents inn ((n1, v) :: cells) out := by
      simp [State.contents, State.taken, hc]
    rw [hcontents]
    exact hlin

theorem Shape.take (h : Shape s inn rest out) (hc : s.consumer = .take false)
    (ha : s.outqueue = some a) {moved : Option α} {q : Option A} (hcell : s.heap a = some ⟨v, q⟩)
    (hs : s' = { s.write a ⟨moved, q⟩ with consumer := .unlink v }.record (.effect none .pop v)) :
    ∃ out', Shape s' inn rest out' := by
  have hrest := h.chain_rest
  have hout := h.chain_out
  simp only [State.rest, State.out, hc, ha] at hrest hout
  obtain rfl := chain_none.1 hrest
  obtain ⟨v', q', cells, hcell', rfl, hcells⟩ := chain_some.1 hout
  obtain ⟨rfl, rfl⟩ := Cell.mk.inj (some.inj (hcell.symm.trans hcell'))
  have hnodup := h.nodup
  simp only [State.nodes, State.loose, hc, addrs_cons, addrs_nil, append_nil] at hnodup
  have hinn : a ∉ addrs inn := fun hm =>
    (nodup_append.1 hnodup).2.2 a hm a mem_cons_self rfl
  have hmem : a ∉ addrs cells := (nodup_cons.1 (nodup_append.1 hnodup).2.1).1
  have hnodes : s'.nodes inn [] ((a, moved) :: cells) = s.nodes inn [] ((a, v) :: cells) := by
    simp [State.nodes, State.loose, hc, hs, State.record]
  have hheap : s'.heap = update s.heap a (some ⟨moved, q⟩) := by rw [hs]; rfl
  refine ⟨(a, moved) :: cells, ?_, ?_, ?_, ?_, ?_, ?_, ?_, ?_, ?_⟩
  · rw [hheap, hs]
    exact h.chain_inn.update hinn _
  · rw [hs]
    exact .nil
  · have hout' : s'.out = some a := by
      rw [hs]
      exact ha
    rw [hheap, hout']
    exact .cons (update_self ..) (hcells.update hmem _)
  · rw [hnodes]
    exact h.nodup
  · rw [hs]
    nofun
  · rw [hnodes, hheap, hs]
    exact h.producers.write_node (by simp [State.nodes]) _
  · have hne : s.outqueue ≠ none := by rw [ha]; nofun
    rw [hs]
    exact hne
  · rw [hs]
    exact h.fault
  · have hphase : s.phase none = .called .pop := by simp [State.phase, hc, phase]
    have hcontents : s.contents inn [] ((a, v) :: cells) =
        v :: (values cells ++ (values inn).reverse) := by
      simp [State.contents, State.taken, hc]
    have hlin := h.lin
    rw [hcontents] at hlin
    have hpop : Fifo.step (v :: (values cells ++ (values inn).reverse)) (.pop, v) =
        some (values cells ++ (values inn).reverse) := if_pos rfl
    have hprod : s'.producer = s.producer := by rw [hs]; rfl
    have hphase' : s'.phase = update s.phase none (.effected v) := by
      rw [phase_consumer hprod, hs]
      rfl
    rw [hphase', hs]
    exact hlin.effect hphase hpop

variable {ret : Option α}

theorem Shape.delete (h : Shape s inn rest out) (hc : s.consumer = .delete ret a) :
    Shape { s with heap := update s.heap a none, consumer := .done ret } inn rest out := by
  have hrest := h.chain_rest
  have hout := h.chain_out
  have hnodup := h.nodup
  simp only [State.rest, State.out, State.nodes, State.loose, hc] at hrest hout hnodup
  have hmem : a ∉ addrs inn ++ addrs rest ++ addrs out := fun hm =>
    (nodup_append.1 hnodup).2.2 a hm a mem_cons_self rfl
  simp only [mem_append, not_or] at hmem
  refine ⟨h.chain_inn.update hmem.1.1 _, hrest.update hmem.1.2 _, hout.update hmem.2 _, ?_, nofun,
    ?_, trivial, h.fault, ?_⟩
  · have hsub := (nodup_append.1 hnodup).1
    simpa only [State.nodes, State.loose, append_nil] using hsub
  · have ha : a ∈ s.nodes inn rest out := by simp [State.nodes, State.loose, hc]
    have hnodes : s.nodes inn rest out = addrs inn ++ addrs rest ++ addrs out ++ [a] := by
      simp [State.nodes, State.loose, hc]
    refine (h.producers.write_node ha _).subset ?_
    rw [hnodes, State.nodes]
    exact append_subset.2 ⟨subset_append_left _ _, nofun⟩
  · have hsame : State.phase { s with
        heap := update s.heap a none, consumer := .done ret } = s.phase :=
      phase_of_silent rfl (by rw [hc]; rfl)
    have hcontents : State.contents { s with
        heap := update s.heap a none, consumer := .done ret } inn rest out =
          s.contents inn rest out := by
      simp [State.contents, State.taken, hc]
    rw [hsame, hcontents]
    exact h.lin

omit [DecidableEq A] in
theorem Shape.event (h : Shape s inn rest out) {e : Event (Option ι) (Op α) (Option α)}
    (hs : s' = { s with consumer := c }.record e) (hrest : s'.rest = s.rest) (hout : s'.out = s.out)
    (hloose : s'.loose = s.loose) (htaken : s'.taken = s.taken) (hlocal : s'.Local inn rest out)
    (hlin : Linearizes Fifo.step [] (s.log ++ [e]) (s.contents inn rest out)
      (update s.phase none c.phase)) : Shape s' inn rest out := by
  have hnodes : s'.nodes inn rest out = s.nodes inn rest out := by
    rw [State.nodes, State.nodes, hloose]
  have hcontents : s'.contents inn rest out = s.contents inn rest out := by
    rw [State.contents, State.contents, htaken]
  have hphase : s'.phase = update s.phase none c.phase := by
    have hcs : s'.consumer = c := by rw [hs]; rfl
    rw [← hcs]
    exact phase_consumer (by rw [hs]; rfl)
  refine ⟨?_, ?_, ?_, ?_, ?_, ?_, hlocal, ?_, ?_⟩
  · rw [hs]
    exact h.chain_inn
  · rw [hrest, hs]
    exact h.chain_rest
  · rw [hout, hs]
    exact h.chain_out
  · rw [hnodes]
    exact h.nodup
  · rw [hloose, hs]
    exact h.loose
  · rw [hnodes, hs]
    exact h.producers
  · rw [hs]
    exact h.fault
  · rw [hphase, hcontents, hs]
    exact hlin

omit [DecidableEq A] in
/-- A step that moves the consumer on and leaves the three lists where they are. -/
theorem Shape.silent (h : Shape s inn rest out) {outqueue : Option A}
    (hs : s' = { s with outqueue := outqueue, consumer := c }) (hrest : s'.rest = s.rest)
    (hout : s'.out = s.out) (hloose : s'.loose = s.loose) (htaken : s'.taken = s.taken)
    (hlocal : s'.Local inn rest out) (hphase : c.phase = s.consumer.phase) :
    Shape s' inn rest out := by
  refine h.advance hs h.chain_inn (hrest ▸ h.chain_rest) (hout ▸ h.chain_out) ?_ hlocal ?_ hphase
  · rw [State.nodes, hloose, State.nodes]
  · rw [State.contents, htaken, State.contents]

section Consume

variable {spurious : Bool} {moved : Option α} (h : Shape s inn rest out)
  (hs : s.consume spurious moved = some s')

include h hs

theorem Shape.consume_start (hc : s.consumer = .start) : Shape s' inn rest out := by
  simp only [State.consume, hc, some.injEq] at hs
  refine h.silent hs.symm ?_ ?_ ?_ ?_ ?_ ?_ <;> split_ifs at hs with hq <;> subst hs <;>
    simp [State.rest, State.out, State.loose, State.taken, State.Local, phase, hc, hq]

theorem Shape.consume_testHead (hc : s.consumer = .testHead) : Shape s' inn rest out := by
  have hrest := h.chain_rest
  have hout := h.chain_out
  have hlocal := h.consumer
  simp only [State.consume, hc, some.injEq, State.rest, State.out, State.Local]
    at hs hrest hout hlocal
  split_ifs at hs with hq
  · -- the queue is empty at this moment
    have hinn : inn = [] := chain_none.1 (hq ▸ h.chain_inn)
    have hout' : out = [] := chain_none.1 (hlocal ▸ hout)
    have hempty : s.contents inn rest out = [] := by
      simp [State.contents, hinn, hout', chain_none.1 hrest]
    have hphase : s.phase none = .called .pop := by simp [State.phase, hc, phase]
    have hpop : Fifo.step (s.contents inn rest out) (.pop, none) =
        some (s.contents inn rest out) := by
      rw [hempty]
      rfl
    refine h.event hs.symm ?_ ?_ ?_ ?_ ?_ (h.lin.effect hphase hpop) <;> subst hs
    · simp [State.rest, hc, State.record]
    · simp [State.out, hc, State.record]
    · simp [State.loose, hc, State.record]
    · simp [State.taken, hc, State.record]
    · simp [State.Local, State.record, hlocal]
  · refine h.silent hs.symm ?_ ?_ ?_ ?_ ?_ ?_ <;> subst hs <;>
      simp [State.rest, State.out, State.loose, State.taken, State.Local, phase, hc, hlocal, hq]

theorem Shape.consume_loadHead (hc : s.consumer = .loadHead) : Shape s' inn rest [] := by
  have hrest := h.chain_rest
  have hout := h.chain_out
  have hlocal := h.consumer
  simp only [State.consume, hc, some.injEq, State.rest, State.out, State.Local]
    at hs hrest hout hlocal
  have hout' : out = [] := chain_none.1 (hlocal.1 ▸ hout)
  subst hout'
  refine h.advance hs.symm h.chain_inn ?_ ?_ ?_ ?_ ?_ ?_ <;> subst hs
  · exact hrest
  · exact .nil
  · exact Perm.of_eq (by simp [State.nodes, State.loose, hc])
  · exact ⟨hlocal.2, rfl, inn, suffix_rfl, h.chain_inn⟩
  · simp [State.contents]
  · simp [hc, phase]

/-- The compare-exchange takes the whole list of the producers, or reads `head_` again. -/
theorem Shape.consume_detach (hc : s.consumer = .detach) :
    ∃ inn rest, Shape s' inn rest [] := by
  have hrest := h.chain_rest
  have hout := h.chain_out
  have hlocal := h.consumer
  simp only [State.consume, hc, some.injEq, State.rest, State.out, State.Local]
    at hs hrest hout hlocal
  obtain rfl := chain_none.1 hrest
  obtain rfl := chain_none.1 hout
  split_ifs at hs with hx
  · refine ⟨[], inn, h.advance hs.symm .nil ?_ ?_ ?_ ?_ ?_ ?_⟩ <;> subst hs
    · exact hx.1 ▸ h.chain_inn
    · exact .nil
    · exact Perm.of_eq (by simp [State.nodes, State.loose, hc])
    · exact hx.1 ▸ hlocal.1
    · simp [State.contents]
    · simp [hc, phase]
  · refine ⟨inn, [], h.advance hs.symm h.chain_inn ?_ ?_ ?_ ?_ ?_ ?_⟩ <;> subst hs
    · exact .nil
    · exact .nil
    · exact Perm.of_eq (by simp [State.nodes, State.loose, hc])
    · exact ⟨hlocal.1, rfl, inn, suffix_rfl, h.chain_inn⟩
    · simp [State.contents]
    · rw [hc]

theorem Shape.consume_detached (hc : s.consumer = .detached) : Shape s' inn rest out := by
  have hlocal := h.consumer
  simp only [State.consume, hc, some.injEq, State.Local] at hs hlocal
  refine h.silent hs.symm ?_ ?_ ?_ ?_ ?_ ?_ <;> subst hs <;>
    simp [State.rest, State.out, State.loose, State.taken, State.Local, phase, hc, hlocal]

theorem Shape.consume_reverse {n1 : Option A} (hc : s.consumer = .reverse n1) :
    ∃ rest, Shape s' inn rest out := by
  have hrest := h.chain_rest
  have hlocal := h.consumer
  simp only [hc, State.rest, State.Local] at hrest hlocal
  cases n1 with
  | none =>
    simp only [State.consume, hc, some.injEq] at hs
    refine ⟨rest, h.silent hs.symm ?_ ?_ ?_ ?_ ?_ ?_⟩ <;> subst hs
    on_goal 5 => simpa [State.Local] using hlocal
    all_goals simp [State.rest, State.out, State.loose, State.taken, phase, hc]
  | some n1 =>
    obtain ⟨v, q, cells, hcell, rfl, hcells⟩ := chain_some.1 hrest
    simp only [State.consume, hc, some.injEq, State.access, hcell] at hs
    refine ⟨(n1, v) :: cells, h.silent hs.symm ?_ ?_ ?_ ?_ ?_ ?_⟩ <;> subst hs
    on_goal 5 => exact ⟨v, cells, rfl, hcells⟩
    all_goals simp [State.rest, State.out, State.loose, State.taken, phase, hc]

theorem Shape.consume_relink {n1 : A} (hc : s.consumer = .relink n1 n2) :
    ∃ rest out, Shape s' inn rest out := by
  have hrest := h.chain_rest
  simp only [State.rest, hc] at hrest
  obtain ⟨v, q, cells, hcell, rfl, hcells⟩ := chain_some.1 hrest
  simp only [State.consume, hc, some.injEq, State.access, hcell] at hs
  exact hs ▸ h.relink hc hcell

theorem Shape.consume_advance {n1 : A} (hc : s.consumer = .advance n1 n2) :
    Shape s' inn rest out := by
  simp only [State.consume, hc, some.injEq] at hs
  refine h.silent hs.symm ?_ ?_ ?_ ?_ ?_ ?_ <;> subst hs <;>
    simp [State.rest, State.out, State.loose, State.taken, State.Local, phase, hc]

theorem Shape.consume_take {effected : Bool} (hc : s.consumer = .take effected) :
    ∃ out, Shape s' inn rest out := by
  have hout := h.chain_out
  have hlocal := h.consumer
  simp only [State.Local, State.out, hc] at hlocal hout
  cases hq : s.outqueue with
  | none =>
    obtain rfl : effected = true := hlocal.2 hq
    simp only [State.consume, hc, hq, some.injEq] at hs
    refine ⟨out, h.silent hs.symm ?_ ?_ ?_ ?_ ?_ ?_⟩ <;> subst hs <;>
      simp [State.rest, State.out, State.loose, State.taken, State.Local, phase, hc, hq]
  | some a =>
    obtain rfl : effected = false := by simpa [hq] using hlocal
    obtain ⟨v, q, cells, hcell, rfl, hcells⟩ := chain_some.1 (hq ▸ hout)
    simp only [State.consume, hc, hq, some.injEq, State.access, hcell] at hs
    exact h.take hc hq hcell hs.symm

theorem Shape.consume_unlink (hc : s.consumer = .unlink ret) :
    ∃ out, Shape s' inn rest out := by
  have hrest := h.chain_rest
  have hout := h.chain_out
  have hlocal := h.consumer
  simp only [State.Local, State.out, State.rest, hc] at hlocal hout hrest
  obtain ⟨a, hq⟩ := ne_none_iff_exists'.1 hlocal
  obtain ⟨v, q, cells, hcell, rfl, hcells⟩ := chain_some.1 (hq ▸ hout)
  simp only [State.consume, hc, hq, some.injEq, State.access, hcell] at hs
  refine ⟨cells, h.advance hs.symm h.chain_inn ?_ ?_ ?_ ?_ ?_ ?_⟩ <;> subst hs
  · exact hrest
  · exact hcells
  · simp only [State.nodes, State.loose, hc, addrs_cons, append_nil, append_assoc]
    exact Perm.append_left _ (Perm.append_left _ perm_append_comm)
  · trivial
  · simp [State.contents, State.taken, hc]
  · simp [hc, phase]

theorem Shape.consume_delete {tnode : A} (hc : s.consumer = .delete ret tnode) :
    Shape s' inn rest out := by
  have hused := h.loose tnode (by simp [State.loose, hc])
  obtain ⟨cell, hcell⟩ := ne_none_iff_exists'.1 hused
  simp only [State.consume, hc, some.injEq, State.access, hcell] at hs
  exact hs ▸ h.delete hc

theorem Shape.consume_done (hc : s.consumer = .done ret) :
    Shape s' inn rest out := by
  simp only [State.consume, hc, some.injEq] at hs
  have hphase : s.phase none = .effected ret := by simp [State.phase, hc, phase]
  refine h.event hs.symm ?_ ?_ ?_ ?_ ?_ (h.lin.ret hphase) <;> subst hs
  · simp [State.rest, hc, State.record]
  · simp [State.out, hc, State.record]
  · simp [State.loose, hc, State.record]
  · simp [State.taken, hc, State.record]
  · trivial

/-- **Every step of `pop` keeps the lists**: one lemma for each place in its code. -/
theorem Shape.consume : ∃ inn rest out, Shape s' inn rest out := by
  cases hc : s.consumer with
  | idle => simp [State.consume, hc] at hs
  | start => exact ⟨_, _, _, h.consume_start hs hc⟩
  | testHead => exact ⟨_, _, _, h.consume_testHead hs hc⟩
  | loadHead => exact ⟨_, _, _, h.consume_loadHead hs hc⟩
  | detach =>
    obtain ⟨inn, rest, h'⟩ := h.consume_detach hs hc
    exact ⟨_, _, _, h'⟩
  | detached => exact ⟨_, _, _, h.consume_detached hs hc⟩
  | reverse n1 => exact ⟨_, (h.consume_reverse hs hc).imp fun _ h' => ⟨_, h'⟩⟩
  | relink n1 n2 => exact ⟨_, h.consume_relink hs hc⟩
  | advance n1 n2 => exact ⟨_, _, _, h.consume_advance hs hc⟩
  | take effected => exact ⟨_, _, h.consume_take hs hc⟩
  | unlink ret => exact ⟨_, _, h.consume_unlink hs hc⟩
  | delete ret tnode => exact ⟨_, _, _, h.consume_delete hs hc⟩
  | done ret => exact ⟨_, _, _, h.consume_done hs hc⟩

end Consume

theorem Shape.step (h : Shape s inn rest out) {act : Action ι A α} (hs : s.step act = some s') :
    ∃ inn rest out, Shape s' inn rest out := by
  rw [State.step.eq_def, if_neg (by simp [h.fault])] at hs
  cases act with
  | push p v =>
    obtain ⟨hc, hs⟩ := ite_none_right_eq_some.1 hs
    have hphase : s.phase (some p) = .idle := by simp [State.phase, hc, Producer.phase]
    exact ⟨inn, rest, out, some.inj hs ▸ h.setProducer rfl (h.lin.call hphase _)⟩
  | new p a cell =>
    cases hpc : s.producer p with
    | new v =>
      simp only [hpc] at hs
      obtain ⟨ha, hs⟩ := ite_none_right_eq_some.1 hs
      have hfree : a ∉ s.nodes inn rest out := fun hm => h.used hm ha
      have hnobody : ∀ p', (s.producer p').node = some a → p' = p := fun p' hp' =>
        absurd ha (h.producers.used hp')
      exact ⟨inn, rest, out, some.inj hs ▸
        h.write_own hfree hnobody cell rfl (by nofun) (by rw [hpc]; rfl)⟩
    | _ => simp [hpc] at hs
  | produce p spurious =>
    obtain ⟨inn', h'⟩ := h.produce hs
    exact ⟨inn', rest, out, h'⟩
  | pop =>
    obtain ⟨hc, hs⟩ := ite_none_right_eq_some.1 hs
    have hphase : s.phase none = .idle := by simp [State.phase, hc, phase]
    have hs := (some.inj hs).symm
    refine ⟨inn, rest, out, h.event hs ?_ ?_ ?_ ?_ ?_ (h.lin.call hphase _)⟩ <;> subst hs
    · simp [State.rest, hc, State.record]
    · simp [State.out, hc, State.record]
    · simp [State.loose, hc, State.record]
    · simp [State.taken, hc, State.record]
    · trivial
  | consume spurious moved => exact h.consume hs

theorem shape_of_run {acts : List (Action ι A α)}
    (h : run State.step (State.init ι A α) acts = some s) : ∃ inn rest out, Shape s inn rest out :=
  run_invariant (I := fun s => ∃ inn rest out, Shape s inn rest out)
    (fun _ _ _ ⟨_, _, _, hI⟩ hs => hI.step hs) ⟨[], [], [], shape_init⟩ h

def pushed (es : List (Op α × Option α)) : List (Option α) :=
  es.filterMap fun e =>
    match e.1 with
    | .push v => some v
    | .pop => none

/-- The values that the pops of a sequential history return from a queue that is not
empty. -/
def Fifo.returned : List (Option α) → List (Op α × Option α) → List (Option α)
  | _, [] => []
  | q, (.push v, _) :: es => Fifo.returned (q ++ [v]) es
  | [], (.pop, _) :: es => Fifo.returned [] es
  | _ :: q, (.pop, r) :: es => r :: Fifo.returned q es

theorem Fifo.returned_append {q q' : List (Option α)} {es : List (Op α × Option α)}
    (h : run Fifo.step q es = some q') : q ++ pushed es = Fifo.returned q es ++ q' := by
  induction es generalizing q with
  | nil =>
    cases h
    simp [pushed, Fifo.returned]
  | cons e es ih =>
    rw [run_cons] at h
    obtain ⟨t, ht, hrest⟩ := bind_eq_some_iff.1 h
    have hnext := ih hrest
    rcases e with ⟨_ | _, r⟩
    · -- a push
      obtain ⟨-, rfl⟩ := ite_some_none_eq_some.1 ht
      rw [Fifo.returned, ← hnext, append_assoc]
      rfl
    · cases q with
      | nil =>
        obtain ⟨-, rfl⟩ := ite_some_none_eq_some.1 ht
        rw [Fifo.returned, ← hnext]
        rfl
      | cons v q =>
        obtain ⟨hr, rfl⟩ := ite_some_none_eq_some.1 ht
        rw [Fifo.returned, hr, cons_append, cons_append, ← hnext]
        rfl

theorem Fifo.step_pop_null {q q' : List (Option α)} (h : Fifo.step q (.pop, none) = some q') :
    q = [] ∨ ∃ rest, q = none :: rest := by
  cases q with
  | nil => exact .inl rfl
  | cons v q =>
    obtain ⟨rfl, -⟩ := ite_none_right_eq_some.1 h
    exact .inr ⟨q, rfl⟩

theorem Shape.chains (h : Shape s inn rest out) :
    ∃ cells, Chain s.heap s.outqueue cells ∧ (s.consumer = .idle → rest = [] ∧ cells = out) ∧
      if s.consumer = .detach then cells <:+ inn else List.Disjoint (addrs inn) (addrs cells) := by
  have hrest := h.chain_rest
  have hout := h.chain_out
  have hlocal := h.consumer
  have hnodup := h.nodup
  simp only [State.nodes, append_assoc] at hnodup
  have hdisj := disjoint_of_nodup_append hnodup
  rw [disjoint_append_right, disjoint_append_right] at hdisj
  simp only [State.rest, State.out, State.Local] at hrest hout hlocal
  cases hc : s.consumer with
  | idle =>
    simp only [hc] at hrest hout
    exact ⟨out, hout, fun _ => ⟨chain_none.1 hrest, rfl⟩, by simpa using hdisj.2.1⟩
  | detach =>
    simp only [hc] at hlocal
    obtain ⟨-, -, cells, hsuf, hcells⟩ := hlocal
    exact ⟨cells, hcells, by nofun, by simpa using hsuf⟩
  | detached =>
    simp only [hc] at hrest
    exact ⟨rest, hrest, by nofun, by simpa using hdisj.1⟩
  | advance n1 n2 =>
    simp only [hc] at hlocal
    obtain ⟨v, cells, rfl, hcells⟩ := hlocal
    rw [addrs_cons, disjoint_cons_right] at hdisj
    exact ⟨cells, hcells, by nofun, by simpa using hdisj.2.1.2⟩
  | _ =>
    simp only [hc] at hout
    exact ⟨out, hout, by nofun, by simpa using hdisj.2.1⟩

/-- **The queue refines a first-in-first-out queue.**  From `outqueue_ = head_` to the
compare-exchange that detaches the list, `outqueue_` is an end of the list at `head_`. -/
theorem mpsc_linearizable {acts : List (Action ι A α)}
    (h : run State.step (State.init ι A α) acts = some s) :
    s.fault = false ∧
    (∀ pre post, s.log = pre ++ .effect none .pop none :: post →
      ∃ q, run Fifo.step [] (effects pre) = some q ∧ (q = [] ∨ ∃ rest, q = none :: rest)) ∧
    ∃ q inn out, Linearizes Fifo.step [] s.log q s.phase ∧
      pushed (effects s.log) = Fifo.returned [] (effects s.log) ++ q ∧
      Chain s.heap s.head inn ∧ Chain s.heap s.outqueue out ∧
      (s.consumer = .idle → q = values out ++ (values inn).reverse) ∧
      if s.consumer = .detach then out <:+ inn else List.Disjoint (addrs inn) (addrs out) := by
  obtain ⟨inn, rest, out, hshape⟩ := shape_of_run h
  obtain ⟨cells, hcells, hidle, hlists⟩ := hshape.chains
  refine ⟨hshape.fault, ?_, s.contents inn rest out, inn, cells, hshape.lin,
    Fifo.returned_append hshape.lin.effects, hshape.chain_inn, hcells, ?_, hlists⟩
  · intro pre post hlog
    have hrun := hshape.lin.effects
    rw [hlog, effects_append, run_append] at hrun
    obtain ⟨q, hq, hrest⟩ := bind_eq_some_iff.1 hrun
    rw [effects_cons_effect, run_cons] at hrest
    obtain ⟨q', hq', -⟩ := bind_eq_some_iff.1 hrest
    exact ⟨q, hq, Fifo.step_pop_null hq'⟩
  · intro hc
    obtain ⟨rfl, rfl⟩ := hidle hc
    simp [State.contents, State.taken, hc]

/-- A producer reads `head_` when it is node 0, which is then popped and deleted; another
push gets address 0 again, and the compare-exchange of the first succeeds. -/
theorem mpsc_linearizable_reused :
    ∃ (acts : List (Action Bool ℕ ℕ)) (s : State Bool ℕ ℕ),
      run State.step (State.init Bool ℕ ℕ) acts = some s ∧
      Fifo.returned [] (effects s.log) = [some 7, some 9, some 8] ∧ s.fault = false := by
  let push (p : Bool) (a v : ℕ) : List (Action Bool ℕ ℕ) :=
    [.push p (some v), .new p a ⟨none, none⟩, .produce p false, .produce p false]
  let acts : List (Action Bool ℕ ℕ) :=
    push true 0 7 ++ [Action.produce true false, .produce true false] ++ push false 1 8 ++
      Action.pop :: List.replicate 13 (Action.consume false none) ++
      push true 0 9 ++ [Action.produce true false, .produce false false] ++
      Action.pop :: List.replicate 16 (Action.consume false none) ++
      Action.pop :: List.replicate 5 (Action.consume false none)
  exact ⟨acts, exists_run_and (by decide +kernel) fun s hs _ => (mpsc_linearizable hs).1⟩

/-- While `pop` tries to detach the list, `head_` and `outqueue_` reach the same node; and
a null that was pushed is returned as it is, from a queue that is not empty before or
after. -/
theorem mpsc_shared_chain_and_pushed_null :
    (∃ (acts : List (Action Bool ℕ ℕ)) (s : State Bool ℕ ℕ),
      run State.step (State.init Bool ℕ ℕ) acts = some s ∧
      ∃ inn out, Chain s.heap s.head inn ∧ Chain s.heap s.outqueue out ∧
        ¬List.Disjoint (addrs inn) (addrs out)) ∧
    ∃ (acts : List (Action Bool ℕ ℕ)) (s : State Bool ℕ ℕ),
      run State.step (State.init Bool ℕ ℕ) acts = some s ∧
      s.log = [.call (some true) (.push none), .effect (some true) (.push none) none,
        .ret (some true) none, .call (some true) (.push (some 8)),
        .effect (some true) (.push (some 8)) none, .ret (some true) none,
        .call none .pop, .effect none .pop none, .ret none none] := by
  let push (a : ℕ) (v : Option ℕ) : List (Action Bool ℕ ℕ) :=
    [Action.push true v, .new true a ⟨none, none⟩] ++
      List.replicate 4 (Action.produce true false)
  constructor
  · have hrun : (run State.step (State.init Bool ℕ ℕ) (push 0 (some 7) ++
        Action.pop :: List.replicate 3 (Action.consume false none))).map (fun s =>
        decide (s.head = some 0 ∧ s.outqueue = some 0 ∧ s.heap 0 = some ⟨some 7, none⟩)) =
          some true := by
      decide +kernel
    obtain ⟨s, hs, hp⟩ := exists_of_run_map hrun
    obtain ⟨hhead, hout, hcell⟩ := of_decide_eq_true hp
    have hchain : Chain s.heap (some 0) [(0, some 7)] := .cons hcell .nil
    refine ⟨_, s, hs, _, _, hhead ▸ hchain, hout ▸ hchain, ?_⟩
    simp
  · exact ⟨push 0 none ++ push 1 (some 8) ++
      Action.pop :: List.replicate 16 (Action.consume false none),
      exists_run_of_decide (by decide +kernel)⟩

end Corpc.Queue
