import PyCoyote.RdmaEpochs
import PyCoyote.RdmaSplit
import PyCoyote.Script

/-!
# The scripts of the RDMA benchmark on a link

Two scripts share a queue pair. Coyote, its cards and the network between them
are a parameter: the scripts rely on Coyote accepting their calls, on the copies
that these start being made, in any order, and on the counter of local writes
counting the copies that have ended; `conn_sync` returns to both sides once both
have called it. Buffers are seen as elements of four bytes, as `int` gives them.
-/

namespace PyCoyote.Rdma

open Library.RemoteCopy

/-- Two Coyote threads joined by a queue pair, as far as their scripts can tell. -/
structure Link where
  State : Type
  /-- The answer to a party's call, and the state after it. -/
  call : State → Side → CoyoteCall → Answer × State
  /-- A party assigns an element of its RDMA buffer. -/
  store : State → Side → ℕ → ℤ → State
  /-- What happens between the calls. -/
  Evolves : State → State → Prop
  /-- Each party's RDMA buffer, its counter of local writes and the copies to it. -/
  node : State → Side → Node ℤ
  accepts : ∀ s p c, (call s p c).1.isOk = true
  check : ∀ s p v, (call s p (.checkCompleted .localWrite)).1 = .ok v →
    v.toUInt32 = UInt32.ofNat (node s p).count
  checked : ∀ s p, node (call s p (.checkCompleted .localWrite)).2 = node s
  cleared : ∀ s p, node (call s p (.method .clearCompleted)).2 =
    Function.update (node s) p (node s p).clear
  met : ∀ s p, node (call s p (.method .connSync)).2 = node s
  written : ∀ s p sg last, sg.localOffs = 0 → sg.remoteOffs = 0 →
    node (call s p (.invokeRdma .remoteRdmaWrite sg last)).2 =
      Function.update (node s) p.peer ((node s p.peer).launch (sg.len.toNat / 4))
  read : ∀ s p sg last, sg.localOffs = 0 → sg.remoteOffs = 0 →
    node (call s p (.invokeRdma .remoteRdmaRead sg last)).2 =
      Function.update (node s) p ((node s p).launch (sg.len.toNat / 4))
  stored : ∀ s p i v, node (store s p i v) = Function.update (node s) p ((node s p).set i v)
  evolves : ∀ s s', Evolves s s' → node s' = node s ∨ ∃ p after,
    Moves (node s p.peer).mem (node s p) after ∧ node s' = Function.update (node s) p after
  moves : ∀ s p, (node s p).flight ≠ [] → ∃ s' q after, Evolves s s' ∧
    Moves (node s q.peer).mem (node s q) after ∧ node s' = Function.update (node s) q after

/-- A link that does nothing but copy. -/
def Link.copying : Link where
  State := Side → Node ℤ
  call s p c :=
    match c with
    | .checkCompleted .localWrite => (.ok (UInt32.ofNat (s p).count).toUInt64, s)
    | .method .clearCompleted => (.ok 0, Function.update s p (s p).clear)
    | .invokeRdma .remoteRdmaWrite sg _ =>
        (.ok 0, Function.update s p.peer ((s p.peer).launch (sg.len.toNat / 4)))
    | .invokeRdma .remoteRdmaRead sg _ =>
        (.ok 0, Function.update s p ((s p).launch (sg.len.toNat / 4)))
    | _ => (.ok 0, s)
  store s p i v := Function.update s p ((s p).set i v)
  Evolves s s' := ∃ p after, Moves (s p.peer).mem (s p) after ∧ s' = Function.update s p after
  node s := s
  accepts s p c := by split <;> rfl
  check s p v h := by
    cases h
    exact UInt32.toUInt32_toUInt64 _
  checked s p := rfl
  cleared s p := rfl
  met s p := rfl
  written s p sg last _ _ := rfl
  read s p sg last _ _ := rfl
  stored s p i v := rfl
  evolves s s' h := .inr h
  moves s p h := by
    obtain ⟨after, hafter⟩ := exists_moves (s p.peer).mem h
    exact ⟨_, p, after, ⟨p, after, hafter, rfl⟩, hafter, rfl⟩

/-- A statement of the scripts. `assign b i v` is `b[i] = v`, `assertEqual b i v`
asserts `b[i] == v`, and `untilCompleted n` is the loop that waits for
`get_completed('local_write')` to be `n`. -/
inductive Stmt where
  | assign (b : CoyoteBuffer) (i : ℕ) (v : ℤ)
  | assertEqual (b : CoyoteBuffer) (i : ℕ) (v : ℤ)
  | clearCompleted
  | connSync
  | rdmaWrite (size : ℕ)
  | rdmaRead (size : ℕ)
  | untilCompleted (n : ℕ)
deriving DecidableEq

/-- The method that a statement calls. -/
def Stmt.method : Stmt → Option Operation
  | .assign .. | .assertEqual .. => none
  | .clearCompleted => some (.method .clearCompleted)
  | .connSync => some (.method .connSync)
  | .rdmaWrite size => some (.rdmaWrite (.ofNat size) "host" 0 0 0 0 true)
  | .rdmaRead size => some (.rdmaRead (.ofNat size) "host" 0 0 0 0 true)
  | .untilCompleted _ => some (.getCompleted "local_write")

/-- What a statement does on one side of the link. -/
def Stmt.cmd (p : Side) : Stmt → Cmd
  | .assign _ i v => .set i v
  | .assertEqual _ i v => .check i v
  | .clearCompleted => .clear
  | .connSync => .sync
  | .rdmaWrite size => .launch p.peer size
  | .rdmaRead size => .launch p size
  | .untilCompleted n => .poll n

/-- What is left of each script, the wrapper's state of each thread and the
link's; an exception ends the script that it occurs in. -/
structure State (L : Link) where
  code : Side → List Stmt
  wrapper : Side → WrapperState
  link : L.State
  failed : Bool

section Header
variable [CoyoteHeader] {L : Link}

/-- The state after a method of a party returned or raised. -/
def State.after (s : State L) (p : Side) (rest : List Stmt) (r : Outcome Value × L.State) :
    State L :=
  match r.1.result with
  | .ok _ => { s with
      code := Function.update s.code p rest
      wrapper := Function.update s.wrapper p r.1.state
      link := r.2 }
  | .error _ => { s with
      code := Function.update s.code p []
      wrapper := Function.update s.wrapper p r.1.state
      link := r.2
      failed := true }

/-- An exception of Python itself ends a party's script. -/
def State.raise (s : State L) (p : Side) : State L :=
  { s with code := Function.update s.code p [], failed := true }

/-- A party's method as it runs. -/
def State.exec (s : State L) (p : Side) (op : Operation) : Outcome Value × L.State :=
  op.against (L.call s.link p) s.link (s.wrapper p)

/-- A party's script goes on, unless it waits in `conn_sync`. -/
def State.advance (s : State L) (p : Side) : Option (State L) :=
  match s.code p with
  | [] => none
  | .connSync :: _ => none
  | .assign b i v :: rest =>
      some (if b.writable i (.ofInt v) = true then { s with
        code := Function.update s.code p rest
        link := L.store s.link p i v }
      else s.raise p)
  | .assertEqual b i v :: rest =>
      some (if b.readable i = true ∧ (L.node s.link p).mem i = v then
        { s with code := Function.update s.code p rest }
      else s.raise p)
  | .untilCompleted n :: rest =>
      let r := s.exec p (.getCompleted "local_write")
      some (s.after p (if r.1.reading = n then rest else s.code p) r)
  | stmt :: rest => stmt.method.map fun op => s.after p rest (s.exec p op)

/-- Both scripts are in `conn_sync`, which returns to both. -/
def State.meet (s : State L) : Option (State L) :=
  match s.code .client, s.code .server with
  | .connSync :: rest, .connSync :: rest' =>
      let s' := s.after .client rest (s.exec .client (.method .connSync))
      some (s'.after .server rest' (s'.exec .server (.method .connSync)))
  | _, _ => none

/-- One step of a script, of both, or of the link. -/
inductive Step (s : State L) : State L → Prop
  | advance {s' : State L} (p : Side) (h : s.advance p = some s') : Step s s'
  | meet {s' : State L} (h : s.meet = some s') : Step s s'
  | link {link' : L.State} (h : L.Evolves s.link link') : Step s { s with link := link' }

/-- The states of the two scripts under every interleaving. -/
def Reaches : State L → State L → Prop := Relation.ReflTransGen Step

omit [CoyoteHeader] in
/-- The state as the machine sees it. -/
def State.config (s : State L) : Config :=
  ⟨fun p => (s.code p).map (Stmt.cmd p), L.node s.link, s.failed⟩

/-- The number of bytes fits in 32 bits and into each party's buffer. -/
def FitsBytes (rdmaBuff : Side → CoyoteBuffer) (bytes : ℕ) : Prop :=
  bytes < 2 ^ 32 ∧ ∀ q, bytes ≤ (rdmaBuff q).len * (rdmaBuff q).base.dtype.size.toNat

/-- An access returns, and the bytes of what a statement transfers fit. -/
def Stmt.Fits (rdmaBuff : Side → CoyoteBuffer) : Stmt → Prop
  | .assign b i v => b.writable i (.ofInt v) = true
  | .assertEqual b i _ => b.readable i = true
  | .rdmaWrite size => FitsBytes rdmaBuff (size * 4)
  | .rdmaRead size => FitsBytes rdmaBuff (size * 4)
  | _ => True

/-- The `qp_dtype` of both threads has elements of four bytes, and what is left of
the scripts fits the buffers. -/
structure Sound (rdmaBuff : Side → CoyoteBuffer) (s : State L) : Prop where
  qpDtype : ∀ p, (s.wrapper p).qpDtype.value.size = 4
  fits : ∀ p, ∀ stmt ∈ s.code p, stmt.Fits rdmaBuff

variable {rdmaBuff : Side → CoyoteBuffer}

omit [CoyoteHeader] in
/-- Changing one script changes one party's commands. -/
theorem config_code_update (s : State L) (p : Side) (rest : List Stmt) :
    (fun q => (Function.update s.code p rest q).map (Stmt.cmd q)) =
      Function.update s.config.code p (rest.map (Stmt.cmd p)) := by
  funext q
  obtain rfl | rfl := q.eq_or_eq_peer p
  · simp only [Function.update_self]
  · simp only [update_peer]
    rfl

omit [CoyoteHeader] in
theorem Sound.fits_update {s : State L} (h : Sound rdmaBuff s) {p : Side} {rest : List Stmt}
    (hrest : ∀ stmt ∈ rest, stmt.Fits rdmaBuff) :
    ∀ q, ∀ stmt ∈ Function.update s.code p rest q, stmt.Fits rdmaBuff := by
  intro q
  obtain rfl | rfl := q.eq_or_eq_peer p
  · rwa [Function.update_self]
  · rw [update_peer]
    exact h.fits p.peer

omit [CoyoteHeader] in
theorem Sound.fits_rest {s : State L} (h : Sound rdmaBuff s) {p : Side} {stmt : Stmt} {rest : List Stmt}
    (hcode : s.code p = stmt :: rest) : ∀ u ∈ rest, u.Fits rdmaBuff := by
  intro u hu
  have := h.fits p
  rw [hcode] at this
  exact this u (List.mem_cons_of_mem _ hu)

omit [CoyoteHeader] in
theorem Sound.fits_head {s : State L} (h : Sound rdmaBuff s) {p : Side} {stmt : Stmt} {rest : List Stmt}
    (hcode : s.code p = stmt :: rest) : stmt.Fits rdmaBuff := by
  have := h.fits p
  rw [hcode] at this
  exact this stmt List.mem_cons_self

/-- A validated method of a party returns, and changes the link as its call does. -/
theorem Sound.after_exec {s : State L} (h : Sound rdmaBuff s) {p : Side} {rest : List Stmt}
    (hrest : ∀ stmt ∈ rest, stmt.Fits rdmaBuff) {op : Operation} {c : CoyoteCall}
    (hvalid : op.valid = true) (hcalls : op.callsCoyote = true)
    (hcall : (op.run (.ok 0) (s.wrapper p)).calls = [c]) (hkeep : ∀ q, op.qpDtypeAfter q = q) :
    Sound rdmaBuff (s.after p rest (s.exec p op)) ∧ (s.after p rest (s.exec p op)).config =
      ⟨Function.update s.config.code p (rest.map (Stmt.cmd p)),
        L.node (L.call s.link p c).2, s.failed⟩ := by
  obtain ⟨c', storage, value, hmakes, heq⟩ :=
    Operation.against_of_valid hvalid hcalls (L.accepts s.link p) s.link (s.wrapper p)
  obtain rfl := hmakes.call_eq hcall
  have hexec : s.exec p op = _ := heq
  rw [hkeep] at hexec
  simp only [State.after, hexec]
  refine ⟨⟨fun q => ?_, h.fits_update hrest⟩, ?_⟩
  · obtain rfl | rfl := q.eq_or_eq_peer p
    · simpa only [Function.update_self] using h.qpDtype q
    · simpa only [update_peer] using h.qpDtype p.peer
  · simp only [State.config, config_code_update]

/-- The loop that waits sees the counter of local writes. -/
theorem Sound.after_test {s : State L} (h : Sound rdmaBuff s) (p : Side) {rest : List Stmt}
    (hrest : ∀ stmt ∈ rest, stmt.Fits rdmaBuff) :
    (s.exec p (.getCompleted "local_write")).1.reading = word (L.node s.link p).count ∧
      Sound rdmaBuff (s.after p rest (s.exec p (.getCompleted "local_write"))) ∧
      (s.after p rest (s.exec p (.getCompleted "local_write"))).config =
        ⟨Function.update s.config.code p (rest.map (Stmt.cmd p)), L.node s.link, s.failed⟩ := by
  obtain ⟨v, hv, heq⟩ := Operation.against_getCompleted completedOper_localWrite (L.accepts s.link p _) s.link
    (s.wrapper p)
  have hexec : s.exec p (.getCompleted "local_write") = _ := heq
  have hread : Outcome.reading ⟨.ok (.number v.toUInt32.toUInt64), s.wrapper p,
      [⟨.checkCompleted .localWrite, (s.wrapper p).storage, true⟩]⟩ = v.toUInt32.toNat :=
    UInt32.toNat_toUInt64 _
  rw [hexec]
  refine ⟨?_, ?_⟩
  · rw [hread, L.check s.link p v hv]
    rfl
  · simp only [State.after, Function.update_eq_self]
    refine ⟨⟨h.qpDtype, h.fits_update hrest⟩, ?_⟩
    simp only [State.config, config_code_update, L.checked]

omit [CoyoteHeader] in
/-- A transfer whose bytes fit in 32 bits covers all its elements. -/
theorem len_div {size : ℕ} (hfits : size * 4 < 2 ^ 32) {d : DataType} (hd : d.size = 4) :
    (byteCount (.ofNat size) d).toNat / 4 = size := by
  have hsize : (UInt32.ofNat size).toNat = size := by
    rw [UInt32.toNat_ofNat']
    exact Nat.mod_eq_of_lt (by omega)
  have hlength : byteLength (.ofNat size) d.size = size * 4 := by
    rw [byteLength, hsize, hd]
    rfl
  rw [byteCount_toNat, hlength, Nat.mod_eq_of_lt hfits, Nat.mul_div_cancel _ (by decide)]

omit [CoyoteHeader] in
/-- A party whose script can go on is not at a meeting. -/
theorem canGo_iff {s : State L} {p : Side} {stmt : Stmt} {rest : List Stmt}
    (hcode : s.code p = stmt :: rest) : s.config.CanGo p ↔ stmt.cmd p ≠ .sync ∧
      ∀ n, stmt.cmd p = .poll n → word (L.node s.link p).count = n := by
  have hconfig : s.config.code p = stmt.cmd p :: rest.map (Stmt.cmd p) := by
    simp [State.config, hcode]
  constructor
  · rintro ⟨cmd, rest', hcmd, hgo⟩
    obtain ⟨rfl, -⟩ := List.cons.inj (hconfig.symm.trans hcmd)
    exact hgo
  · exact fun hgo => ⟨_, _, hconfig, hgo⟩

/-- A step of one script is a turn of the machine, and shortens the script where
that can go on. -/
theorem Sound.advance {s : State L} (h : Sound rdmaBuff s) {p : Side} {stmt : Stmt} {rest : List Stmt}
    (hcode : s.code p = stmt :: rest) (hsync : stmt ≠ .connSync) :
    ∃ s', s.advance p = some s' ∧ Sound rdmaBuff s' ∧ Turn s.config s'.config ∧
      (s.config.CanGo p → (s'.config.code p).length < (s.config.code p).length) := by
  have hrest := h.fits_rest hcode
  have hconfig : s.config.code p = stmt.cmd p :: rest.map (Stmt.cmd p) := by
    simp [State.config, hcode]
  have hshort : ∀ node failed, ((⟨Function.update s.config.code p (rest.map (Stmt.cmd p)), node,
      failed⟩ : Config).code p).length < (s.config.code p).length := by
    intro node failed
    simp [hconfig]
  have hdone : ∀ (s' : State L) node, s.advance p = some s' → Sound rdmaBuff s' →
      s'.config = ⟨Function.update s.config.code p (rest.map (Stmt.cmd p)), node, s.failed⟩ →
      Turn s.config ⟨Function.update s.config.code p (rest.map (Stmt.cmd p)), node, s.failed⟩ →
      ∃ s', s.advance p = some s' ∧ Sound rdmaBuff s' ∧ Turn s.config s'.config ∧
        (s.config.CanGo p → (s'.config.code p).length < (s.config.code p).length) := by
    intro s' node hadvance hsound hnext hturn
    refine ⟨s', hadvance, hsound, hnext ▸ hturn, fun _ => ?_⟩
    rw [hnext]
    exact hshort _ _
  cases stmt with
  | connSync => exact absurd rfl hsync
  | assign b i v =>
      have hwritable : b.writable i (.ofInt v) = true := h.fits_head hcode
      refine hdone ⟨Function.update s.code p rest, s.wrapper, L.store s.link p i v, s.failed⟩
        (Function.update s.config.node p ((s.config.node p).set i v))
        (by simp only [State.advance, hcode, if_pos hwritable])
        ⟨h.qpDtype, h.fits_update hrest⟩ ?_ (.set hconfig)
      simp only [State.config, config_code_update, L.stored]
  | assertEqual b i v =>
      have hreadable : b.readable i = true := h.fits_head hcode
      by_cases hv : (L.node s.link p).mem i = v
      · refine hdone ⟨Function.update s.code p rest, s.wrapper, s.link, s.failed⟩ s.config.node
          (by simp only [State.advance, hcode, hreadable, hv, and_self, if_true])
          ⟨h.qpDtype, h.fits_update hrest⟩ ?_ (.pass hconfig hv)
        simp only [State.config, config_code_update]
      · have hnext : (s.raise p).config =
            ⟨Function.update s.config.code p [], s.config.node, true⟩ := by
          simp only [State.raise, State.config, config_code_update, List.map_nil]
        refine ⟨s.raise p, by simp only [State.advance, hcode, hv, and_false, if_false],
          ⟨h.qpDtype, h.fits_update (by simp)⟩, ?_, fun _ => ?_⟩
        · rw [hnext]
          exact .fail hconfig hv
        · rw [hnext, hconfig]
          simp
  | clearCompleted =>
      have hcall : ((Operation.method .clearCompleted).run (.ok 0) (s.wrapper p)).calls =
          [.method .clearCompleted] := rfl
      obtain ⟨hsound, hnext⟩ := h.after_exec hrest rfl rfl hcall fun _ => rfl
      rw [L.cleared] at hnext
      exact hdone _ _ (by simp only [State.advance, hcode, Stmt.method, Option.map_some]) hsound
        hnext (.clear hconfig)
  | rdmaWrite size =>
      have hvalid : (Operation.rdmaWrite (.ofNat size) "host" 0 0 0 0 true).valid = true :=
        validStream_host
      have hcall := Operation.run_rdmaWrite_calls (.ok 0) (s.wrapper p) validStream_host
        (.ofNat size) 0 0 0 0 true
      obtain ⟨hsound, hnext⟩ := h.after_exec hrest hvalid rfl hcall fun _ => rfl
      rw [L.written _ _ _ _ rfl rfl, len_div (h.fits_head hcode).1 (h.qpDtype p)] at hnext
      exact hdone _ _ (by simp only [State.advance, hcode, Stmt.method, Option.map_some]) hsound
        hnext (.launch hconfig)
  | rdmaRead size =>
      have hvalid : (Operation.rdmaRead (.ofNat size) "host" 0 0 0 0 true).valid = true :=
        validStream_host
      have hcall := Operation.run_rdmaRead_calls (.ok 0) (s.wrapper p) validStream_host
        (.ofNat size) 0 0 0 0 true
      obtain ⟨hsound, hnext⟩ := h.after_exec hrest hvalid rfl hcall fun _ => rfl
      rw [L.read _ _ _ _ rfl rfl, len_div (h.fits_head hcode).1 (h.qpDtype p)] at hnext
      exact hdone _ _ (by simp only [State.advance, hcode, Stmt.method, Option.map_some]) hsound
        hnext (.launch hconfig)
  | untilCompleted n =>
      by_cases hn : word (L.node s.link p).count = n
      · obtain ⟨hread, hsound, hnext⟩ := h.after_test p hrest
        refine hdone _ _ ?_ hsound hnext (.found hconfig hn)
        simp only [State.advance, hcode, hread, if_pos hn]
      · obtain ⟨hread, hsound, hnext⟩ := h.after_test p (h.fits p)
        have hsame : (s.after p (s.code p) (s.exec p (.getCompleted "local_write"))).config =
            s.config := by
          rw [hnext]
          exact congrArg (Config.mk · _ _) (Function.update_eq_self p s.config.code)
        refine ⟨_, ?_, hsound, ?_, fun hgo => ?_⟩
        · simp only [State.advance, hcode, hread, if_neg hn]
        · rw [hsame]
          exact .again hconfig hn
        · exact absurd (((canGo_iff hcode).mp hgo).2 n rfl) hn

/-- `conn_sync` returns to both parties at once. -/
theorem Sound.meet {s : State L} (h : Sound rdmaBuff s) {rest : Side → List Stmt}
    (hcode : ∀ p, s.code p = .connSync :: rest p) : ∃ s', s.meet = some s' ∧ Sound rdmaBuff s' ∧
      s'.config = ⟨fun p => (rest p).map (Stmt.cmd p), L.node s.link, s.failed⟩ := by
  have hcall : ∀ (p : Side) (s : State L),
      ((Operation.method .connSync).run (.ok 0) (s.wrapper p)).calls = [.method .connSync] :=
    fun _ _ => rfl
  obtain ⟨hsound, hnext⟩ := h.after_exec (h.fits_rest (hcode .client)) rfl rfl
    (hcall .client s) fun _ => rfl
  obtain ⟨hsound', hnext'⟩ := hsound.after_exec (h.fits_rest (hcode .server)) rfl rfl
    (hcall .server _) fun _ => rfl
  refine ⟨_, by simp only [State.meet, hcode], hsound', ?_⟩
  have hnode := (congrArg Config.node hnext).trans (L.met _ _)
  have hfailed := congrArg Config.failed hnext
  have hsecond := congrArg Config.code hnext
  rw [hnext', L.met]
  refine congr (congrArg₂ Config.mk ?_ hnode) hfailed
  rw [hsecond]
  funext p
  cases p with
  | client => exact (update_peer _ .server _).trans (Function.update_self Side.client _ s.config.code)
  | server => exact Function.update_self ..

omit [CoyoteHeader] in
/-- A step of the link is a turn of the machine, or none. -/
theorem Sound.link {s : State L} (h : Sound rdmaBuff s) {link' : L.State} (hevolves : L.Evolves s.link link') :
    Sound rdmaBuff { s with link := link' } ∧ (State.config { s with link := link' } = s.config ∨
      Turn s.config (State.config { s with link := link' })) := by
  refine ⟨⟨h.qpDtype, h.fits⟩, ?_⟩
  obtain hsame | ⟨p, node, hmoves, hnode⟩ := L.evolves _ _ hevolves
  · left
    simp only [State.config, hsame]
  · right
    have hnext : State.config { s with link := link' } =
        { s.config with node := Function.update s.config.node p node } := by
      simp only [State.config, hnode]
    rw [hnext]
    exact .copy hmoves

/-- A step of the scripts or the link is a turn of the machine, or none. -/
theorem Step.turn {s s' : State L} (hstep : Step s s') (h : Sound rdmaBuff s) :
    Sound rdmaBuff s' ∧ (s'.config = s.config ∨ Turn s.config s'.config) := by
  cases hstep with
  | link hevolves => exact h.link hevolves
  | advance p hadvance =>
      cases hcode : s.code p with
      | nil => simp [State.advance, hcode] at hadvance
      | cons stmt rest =>
          by_cases hsync : stmt = .connSync
          · simp [State.advance, hcode, hsync] at hadvance
          · obtain ⟨s'', hadvance', hsound, hturn, -⟩ := h.advance hcode hsync
            obtain rfl := Option.some.inj (hadvance'.symm.trans hadvance)
            exact ⟨hsound, .inr hturn⟩
  | meet hmeet =>
      have hcode : ∃ rest : Side → List Stmt, ∀ p, s.code p = .connSync :: rest p := by
        unfold State.meet at hmeet
        split at hmeet
        · next rest rest' hclient hserver =>
            refine ⟨fun p => (s.code p).tail, fun p => ?_⟩
            cases p with
            | client => simp [hclient]
            | server => simp [hserver]
        · cases hmeet
      obtain ⟨rest, hcode⟩ := hcode
      obtain ⟨s'', hmeet', hsound, hnext⟩ := h.meet hcode
      obtain rfl := Option.some.inj (hmeet'.symm.trans hmeet)
      refine ⟨hsound, .inr ?_⟩
      rw [hnext]
      exact .sync fun p => by simp [State.config, hcode, Stmt.cmd]

/-- The scripts and the link keep the account of how far the parties have come. -/
theorem Reaches.keep {operation : Bool} {s s' : State L} (h : Reaches s s') (hs : Sound rdmaBuff s)
    (hlive : s.failed = false) (hstage : Stage operation s.config) :
    Sound rdmaBuff s' ∧ s'.failed = false ∧ Stage operation s'.config := by
  induction h with
  | refl => exact ⟨hs, hlive, hstage⟩
  | @tail mid last _ hstep ih =>
      obtain ⟨hsound, hlive, hstage⟩ := ih
      obtain ⟨hsound', hsame | hturn⟩ := hstep.turn hsound
      · have hfailed : last.failed = mid.failed := congrArg Config.failed hsame
        exact ⟨hsound', hfailed.trans hlive, hsame ▸ hstage⟩
      · obtain ⟨hlive', hstage'⟩ := hstage.keep hlive hturn
        exact ⟨hsound', hlive', hstage'⟩

/-- Before the end some step leaves less to do. -/
theorem Sound.exists_step {operation : Bool} {s : State L} (h : Sound rdmaBuff s)
    (hstage : Stage operation s.config) : (∀ p, s.code p = []) ∨
      ∃ s', Step s s' ∧ s'.config.work < s.config.work := by
  obtain hend | ⟨p, hgo⟩ | hsync | ⟨p, hflight⟩ := hstage.progress
  · exact .inl fun p => List.map_eq_nil_iff.mp (hend p)
  · right
    cases hcode : s.code p with
    | nil =>
        obtain ⟨cmd, rest, hcmd, -⟩ := hgo
        simp [State.config, hcode] at hcmd
    | cons stmt rest =>
        have hsync : stmt ≠ .connSync := by
          rintro rfl
          exact ((canGo_iff hcode).mp hgo).1 rfl
        obtain ⟨s', hadvance, -, hturn, hshort⟩ := h.advance hcode hsync
        refine ⟨s', .advance p hadvance, hturn.work_lt.resolve_left fun hsame => ?_⟩
        have := hshort hgo
        rw [hsame] at this
        exact Nat.lt_irrefl _ this
  · right
    have hcode : ∀ p, ∃ rest, s.code p = .connSync :: rest := by
      intro p
      obtain ⟨rest, hrest⟩ := hsync p
      obtain ⟨stmt, rest', hcode, hcmd, -⟩ := List.map_eq_cons_iff.mp hrest
      cases stmt <;> cases hcmd
      exact ⟨rest', hcode⟩
    choose rest hrest using hcode
    obtain ⟨s', hmeet, hsound, hnext⟩ := h.meet hrest
    have hturn : Turn s.config s'.config := by
      rw [hnext]
      exact .sync fun p => by simp [State.config, hrest, Stmt.cmd]
    refine ⟨s', .meet hmeet, hturn.work_lt.resolve_left fun hsame => ?_⟩
    have hlength := congrArg (fun c => (Config.code c .client).length) (hnext.symm.trans hsame)
    simp [State.config, hrest] at hlength
  · right
    obtain ⟨link', q, node, hevolves, hmoves, hnode⟩ := L.moves s.link p hflight
    have hnext : State.config { s with link := link' } =
        { s.config with node := Function.update s.config.node q node } := by
      simp only [State.config, hnode]
    have hturn : Turn s.config { s.config with node := Function.update s.config.node q node } :=
      .copy hmoves
    refine ⟨_, .link hevolves, ?_⟩
    rw [hnext]
    refine hturn.work_lt.resolve_left fun hsame => ?_
    have hlt := hmoves.work_lt
    have hsame' : node = s.config.node q :=
      (Function.update_self q node s.config.node).symm.trans (congrFun (congrArg Config.node hsame) q)
    rw [hsame'] at hlt
    exact Nat.lt_irrefl _ hlt

/-- From every state that is accounted for the scripts can run to their ends. -/
theorem Sound.exists_done {operation : Bool} {s : State L} (h : Sound rdmaBuff s)
    (hlive : s.failed = false) (hstage : Stage operation s.config) :
    ∃ s', Reaches s s' ∧ (∀ p, s'.code p = []) ∧ s'.failed = false := by
  induction hn : s.config.work using Nat.strongRecOn generalizing s with
  | ind n ih =>
      obtain hend | ⟨mid, hstep, hlt⟩ := h.exists_step hstage
      · exact ⟨s, .refl, hend, hlive⟩
      · obtain ⟨hsound, hlive', hstage'⟩ := Reaches.keep (.single hstep) h hlive hstage
        obtain ⟨s', hreach, hs'⟩ := ih _ (hn ▸ hlt) hsound hlive' hstage' rfl
        exact ⟨s', .head hstep hreach, hs'⟩

/-- The statement relies on no copy coming to its party. -/
def Stmt.NeedsQuiet : Stmt → Prop
  | .assign .. | .assertEqual .. | .clearCompleted | .connSync => True
  | _ => False

/-- The party whose buffer is on one side of a transfer. -/
def Side.on (p : Side) : RdmaSplit.Side → Side
  | .localBuffer => p
  | .remoteBuffer => p.peer

/-- Whatever Coyote answers, what a statement's method addresses in the RDMA buffers
lies in them. -/
def Stmt.Stays (rdmaBuff : Side → CoyoteBuffer) (p : Side) (w : WrapperState) (stmt : Stmt) :
    Prop :=
  ∀ op, stmt.method = some op → ∀ answer, ∀ call ∈ (op.run answer w).calls, ∀ side segment,
    RdmaSplit.addressed side (rdmaBuff (p.on side)).addr.toNat call = some segment →
      Set.Ico segment.start segment.stop ⊆ (rdmaBuff (p.on side)).bytes

omit [CoyoteHeader] in
/-- A transfer without offsets stays in buffers that its bytes fit into. -/
theorem addressed_subset {oper : CoyoteOper} {stream : UInt32} {size : ℕ} {d : DataType}
    (hfits : FitsBytes rdmaBuff (size * 4)) (hd : d.size = 4) {q : Side} {side : RdmaSplit.Side}
    {segment : Library.Tiling.Segment}
    (h : RdmaSplit.addressed side (rdmaBuff q).addr.toNat (.invokeRdma oper
      ⟨0, stream, 0, 0, 0, byteCount (.ofNat size) d⟩ true) = some segment) :
    Set.Ico segment.start segment.stop ⊆ (rdmaBuff q).bytes := by
  obtain rfl := Option.some.inj h
  have hoffs : (RdmaSplit.offs ⟨0, stream, 0, 0, 0, byteCount (.ofNat size) d⟩ side).toNat = 0 := by
    cases side <;> rfl
  have hlen : (byteCount (.ofNat size) d).toNat ≤ size * 4 := by
    rw [byteCount_toNat, byteLength, hd]
    refine (Nat.mod_le _ _).trans (Nat.mul_le_mul_right 4 ?_)
    rw [UInt32.toNat_ofNat']
    exact Nat.mod_le _ _
  have hbytes := hlen.trans (hfits.2 q)
  simp only [Library.Tiling.Segment.stop, hoffs, CoyoteBuffer.bytes]
  exact Set.Ico_subset_Ico le_rfl (Nat.add_le_add_left hbytes _)

theorem Stmt.Fits.stays {stmt : Stmt} (h : stmt.Fits rdmaBuff) {w : WrapperState}
    (hqp : w.qpDtype.value.size = 4) (p : Side) : stmt.Stays rdmaBuff p w := by
  intro op hop answer call hcall side segment hsegment
  cases stmt with
  | assign | assertEqual => cases hop
  | clearCompleted | connSync =>
      obtain rfl := Option.some.inj hop
      cases answer <;> (obtain rfl := List.mem_singleton.mp hcall; cases hsegment)
  | rdmaWrite size =>
      obtain rfl := Option.some.inj hop
      rw [Operation.run_rdmaWrite_calls answer w validStream_host] at hcall
      obtain rfl := List.mem_singleton.mp hcall
      exact addressed_subset h hqp hsegment
  | rdmaRead size =>
      obtain rfl := Option.some.inj hop
      rw [Operation.run_rdmaRead_calls answer w validStream_host] at hcall
      obtain rfl := List.mem_singleton.mp hcall
      exact addressed_subset h hqp hsegment
  | untilCompleted n =>
      obtain rfl := Option.some.inj hop
      rw [Operation.run, Outcome.map_calls, CThread.getCompleted_calls,
        completedOper_localWrite] at hcall
      obtain rfl := List.mem_singleton.mp hcall
      cases hsegment

/-- Nothing has raised and no assertion has failed. A party accesses its buffer,
clears its counter and meets the other only while no copy is under way to it, and
addresses only bytes of the RDMA buffers. -/
structure Safe (rdmaBuff : Side → CoyoteBuffer) (s : State L) : Prop where
  ok : s.failed = false
  quiet : ∀ p stmt rest, s.code p = stmt :: rest → stmt.NeedsQuiet →
    (L.node s.link p).flight = []
  stays : ∀ p stmt rest, s.code p = stmt :: rest → stmt.Stays rdmaBuff p (s.wrapper p)

/-- On any link the two scripts are always safe and can run to their ends from
every state. -/
def Correct (rdmaBuff : Side → CoyoteBuffer) (code : Side → List Stmt) : Prop :=
  ∀ (L : Link) (wrapper : Side → WrapperState) (link : L.State),
    (∀ p, (wrapper p).qpDtype.value.size = 4) → (∀ p, (L.node link p).flight = []) →
      ∀ s, Reaches ⟨code, wrapper, link, false⟩ s → Safe rdmaBuff s ∧
        ∃ s', Reaches s s' ∧ (∀ p, s'.code p = []) ∧ s'.failed = false

/-- Scripts whose commands start in an account of the machine are correct. -/
theorem correct_of_stage {operation : Bool} {code : Side → List Stmt}
    (hfits : ∀ p, ∀ stmt ∈ code p, stmt.Fits rdmaBuff)
    (hstage : ∀ node : Side → Node ℤ, (∀ p, (node p).flight = []) →
      Stage operation ⟨fun p => (code p).map (Stmt.cmd p), node, false⟩) :
    Correct rdmaBuff code := by
  intro L wrapper link hqp hflight s hreach
  have hstart : Sound rdmaBuff (⟨code, wrapper, link, false⟩ : State L) := ⟨hqp, hfits⟩
  obtain ⟨hsound, hlive, hstage'⟩ := hreach.keep hstart rfl (hstage _ hflight)
  refine ⟨⟨hlive, fun p stmt rest hcode hquiet => ?_, fun p stmt rest hcode => ?_⟩,
    hsound.exists_done hlive hstage'⟩
  · have hconfig : s.config.code p = stmt.cmd p :: rest.map (Stmt.cmd p) := by
      simp [State.config, hcode]
    refine hstage'.quiet hconfig ?_
    cases stmt with
    | assign b i v => exact .inr (.inr (.inl ⟨i, v, rfl⟩))
    | assertEqual b i v => exact .inr (.inr (.inr ⟨i, v, rfl⟩))
    | clearCompleted => exact .inl rfl
    | connSync => exact .inr (.inl rfl)
    | rdmaWrite | rdmaRead | untilCompleted => exact hquiet.elim
  · exact (hsound.fits_head hcode).stays (hsound.qpDtype p) p

end Header

end PyCoyote.Rdma
