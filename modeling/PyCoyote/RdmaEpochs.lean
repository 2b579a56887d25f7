import PyCoyote.RdmaMachine

/-!
# Epochs of the RDMA benchmark

The meetings of the parties divide a run into epochs. In an epoch copies go to
the server and then back, or to the client only, and each party ends the epoch
with commands that concern nobody else. The invariant says how far each party
has come in its epoch and what the copies under way carry.
-/

namespace PyCoyote.Rdma

open Library.RemoteCopy

/-- The elements that a benchmark transfers. -/
def ident (i : ℕ) : ℤ := i

/-- The first elements of a buffer are the ones to transfer. -/
def Holds (size : ℕ) (node : Node ℤ) : Prop := ∀ i < size, node.mem i = ident i

theorem Holds.set {size i : ℕ} {v : ℤ} {node : Node ℤ} (h : Holds size node) (hv : v = ident i) :
    Holds size (node.set i v) := by
  intro j hj
  by_cases hji : j = i
  · simp [Node.set, hji, hv]
  · simpa [Node.set, Function.update_of_ne hji] using h j hj

/-- The party whose buffer has the elements from the start: the client's in a
benchmark of writes. -/
def origin (operation : Bool) : Side := if operation then .client else .server

/-- From one meeting to the next: the copies, and what each party does after them. -/
structure Epoch where
  size : ℕ
  numTransfers : ℕ
  tail : Side → List Cmd

/-- The copies of an epoch and the waiting for them. -/
def Epoch.body (e : Epoch) (operation : Bool) : Side → List Cmd
  | .client =>
      List.replicate e.numTransfers (.launch (if operation then .server else .client) e.size) ++
        [.poll e.numTransfers]
  | .server =>
      if operation then
        .poll e.numTransfers :: List.replicate e.numTransfers (.launch .client e.size)
      else []

/-- What a party does after a meeting; the epochs left end in the last meeting. -/
def after (operation : Bool) : List Epoch → Side → List Cmd
  | [], _ => []
  | e :: es, p => e.body operation p ++ (e.tail p ++ .sync :: after operation es p)

/-- The party's next commands are its own, no check fails, and its node ends as
`post` says. -/
def Goes (post : Node ℤ → Prop) : List Cmd → Node ℤ → Prop
  | [], node => post node
  | .set i v :: rest, node => Goes post rest (node.set i v)
  | .check i v :: rest, node => node.mem i = v ∧ Goes post rest node
  | .clear :: rest, node => Goes post rest node.clear
  | _ :: _, _ => False

/-- What the epochs left rely on when a party meets the other. -/
def Ready (operation : Bool) (p : Side) : List Epoch → Node ℤ → Prop
  | [], _ => True
  | e :: _, node => node.count = 0 ∧ (p = origin operation → Holds e.size node)

/-- Commands that write nothing but the elements to transfer. -/
def Honest (code : List Cmd) : Prop := ∀ i v, .set i v ∈ code → v = ident i

/-- The ends of an epoch lead to the next one. The server ends with the elements.
The client has them as well, unless the server may overwrite its own while they
are on their way back. -/
structure Epoch.Leads (operation : Bool) (e : Epoch) (es : List Epoch) : Prop where
  pos : 0 < e.numTransfers
  lt : e.numTransfers < 2 ^ 32
  server : ∀ node, Holds e.size node →
    Goes (Ready operation .server es) (e.tail .server) node
  client : ∀ node, (Honest (e.tail .server) → Holds e.size node) →
    Goes (Ready operation .client es) (e.tail .client) node
  honest : operation = false → Honest (e.tail .server)

/-- Each epoch leads to the next. -/
def Chained (operation : Bool) : List Epoch → Prop
  | [] => True
  | e :: es => e.Leads operation es ∧ Chained operation es

/-- How far the parties have come. -/
inductive Stage (operation : Bool) (c : Config) : Prop
  /-- Nothing is under way, each party is at the end of its epoch. -/
  | apart {es : List Epoch} {left : Side → List Cmd} (hchained : Chained operation es)
      (hcode : ∀ p, c.code p = left p ++ .sync :: after operation es p)
      (hflight : ∀ p, (c.node p).flight = [])
      (hgoes : ∀ p, Goes (Ready operation p es) (left p) (c.node p))
  /-- The client writes to the server, which waits. -/
  | writing {e : Epoch} {es : List Epoch} {toLaunch : ℕ} (hop : operation = true)
      (hchained : Chained operation (e :: es))
      (hclient : c.code .client = List.replicate toLaunch (.launch .server e.size) ++
        .poll e.numTransfers :: (e.tail .client ++ .sync :: after operation es .client))
      (hserver : c.code .server = .poll e.numTransfers ::
        (List.replicate e.numTransfers (.launch .client e.size) ++
          (e.tail .server ++ .sync :: after operation es .server)))
      (hflight : (c.node .client).flight = []) (hcount : (c.node .client).count = 0)
      (hholds : Holds e.size (c.node .client))
      (htotal : (c.node .server).count + (c.node .server).flight.length + toLaunch =
        e.numTransfers)
      (hcarries : Carries ident e.size (c.node .server))
  /-- Copies go to the client, which launches or waits for them. -/
  | fetching {e : Epoch} {es : List Epoch} {toRead toWrite : ℕ} {left : List Cmd}
      (hchained : Chained operation (e :: es))
      (hclient : c.code .client = List.replicate toRead (.launch .client e.size) ++
        .poll e.numTransfers :: (e.tail .client ++ .sync :: after operation es .client))
      (hserver : c.code .server = List.replicate toWrite (.launch .client e.size) ++
        (left ++ .sync :: after operation es .server))
      (hleft : ∀ cmd ∈ left, cmd ∈ e.tail .server)
      (hflight : (c.node .server).flight = [])
      (hgoes : Goes (Ready operation .server es) left (c.node .server))
      (htotal : (c.node .client).count + (c.node .client).flight.length + (toRead + toWrite) =
        e.numTransfers)
      (hcarries : Honest (e.tail .server) →
        Holds e.size (c.node .server) ∧ Carries ident e.size (c.node .client))
  /-- The last meeting is over. -/
  | finished (hcode : ∀ p, c.code p = []) (hflight : ∀ p, (c.node p).flight = [])

/-- The head of code that ends in a meeting. -/
theorem append_sync_cases {left tail rest : List Cmd} {cmd : Cmd}
    (h : left ++ .sync :: tail = cmd :: rest) : (left = [] ∧ cmd = .sync ∧ rest = tail) ∨
      ∃ left', left = cmd :: left' ∧ rest = left' ++ .sync :: tail := by
  cases left with
  | nil =>
      obtain ⟨rfl, rfl⟩ := List.cons.inj h
      exact .inl ⟨rfl, rfl, rfl⟩
  | cons first left' =>
      obtain ⟨rfl, rfl⟩ := List.cons.inj h
      exact .inr ⟨left', rfl, rfl⟩

/-- The head of code that launches copies first. -/
theorem append_launch_cases {n size : ℕ} {q : Side} {tail rest : List Cmd} {cmd : Cmd}
    (h : List.replicate n (.launch q size) ++ tail = cmd :: rest) :
    (n = 0 ∧ tail = cmd :: rest) ∨ ∃ m, n = m + 1 ∧ cmd = .launch q size ∧
      rest = List.replicate m (.launch q size) ++ tail := by
  cases n with
  | zero => exact .inl ⟨rfl, h⟩
  | succ m =>
      obtain ⟨rfl, rfl⟩ := List.cons.inj h
      exact .inr ⟨m, rfl, rfl, rfl⟩

variable {operation : Bool} {c c' : Config}

/-- At the end of an epoch a party goes on by itself. -/
theorem Stage.apart_update {es : List Epoch} {left : Side → List Cmd}
    (hchained : Chained operation es)
    (hcode : ∀ p, c.code p = left p ++ .sync :: after operation es p)
    (hflight : ∀ p, (c.node p).flight = [])
    (hgoes : ∀ p, Goes (Ready operation p es) (left p) (c.node p)) (p : Side)
    {left' : List Cmd} {node : Node ℤ} (hnode : node.flight = [])
    (hgoes' : Goes (Ready operation p es) left' node) (failed : Bool) :
    Stage operation ⟨Function.update c.code p (left' ++ .sync :: after operation es p),
      Function.update c.node p node, failed⟩ := by
  have hcode' : ∀ q, Function.update c.code p (left' ++ .sync :: after operation es p) q =
      Function.update left p left' q ++ .sync :: after operation es q := by
    intro q
    obtain rfl | rfl := q.eq_or_eq_peer p
    · simp only [Function.update_self]
    · simp only [update_peer, hcode]
  refine .apart hchained hcode' ?_ ?_
  all_goals
    intro q
    obtain rfl | rfl := q.eq_or_eq_peer p
  · simp only [Function.update_self, hnode]
  · simp only [update_peer, hflight]
  · simpa only [Function.update_self] using hgoes'
  · simpa only [update_peer] using hgoes p.peer

/-- The first epoch's copies start after a meeting. -/
theorem Stage.of_ready {es : List Epoch} (hchained : Chained operation es)
    (hcode : ∀ p, c.code p = after operation es p) (hflight : ∀ p, (c.node p).flight = [])
    (hready : ∀ p, Ready operation p es (c.node p)) : Stage operation c := by
  cases es with
  | nil => exact .finished hcode hflight
  | cons e es =>
      obtain ⟨hzero, hholds⟩ := hready .client
      obtain ⟨hzero', hholds'⟩ := hready .server
      cases operation with
      | true =>
          have hclient : c.code .client =
              List.replicate e.numTransfers (.launch .server e.size) ++
                .poll e.numTransfers :: (e.tail .client ++ .sync :: after true es .client) := by
            simp [hcode, after, Epoch.body]
          refine .writing rfl hchained hclient (hcode .server) (hflight _) hzero (hholds rfl) ?_
            (.of_quiet _ _ (hflight _) hzero')
          simp [hzero', hflight]
      | false =>
          have hclient : c.code .client =
              List.replicate e.numTransfers (.launch .client e.size) ++
                .poll e.numTransfers :: (e.tail .client ++ .sync :: after false es .client) := by
            simp [hcode, after, Epoch.body]
          have hserver : c.code .server = List.replicate 0 (.launch .client e.size) ++
              (e.tail .server ++ .sync :: after false es .server) := hcode .server
          refine .fetching hchained hclient hserver (fun _ h => h) (hflight _)
            (hchained.1.server _ (hholds' rfl)) ?_
            fun _ => ⟨hholds' rfl, .of_quiet _ _ (hflight _) hzero⟩
          simp [hzero, hflight]

/-- A turn at the ends of an epoch. -/
theorem Stage.keep_apart {es : List Epoch} {left : Side → List Cmd} (hlive : c.failed = false)
    (hchained : Chained operation es)
    (hcode : ∀ p, c.code p = left p ++ .sync :: after operation es p)
    (hflight : ∀ p, (c.node p).flight = [])
    (hgoes : ∀ p, Goes (Ready operation p es) (left p) (c.node p)) (hturn : Turn c c') :
    c'.failed = false ∧ Stage operation c' := by
  have hupdate := fun p (left' : List Cmd) (node : Node ℤ) =>
    @Stage.apart_update _ _ _ _ hchained hcode hflight hgoes p left' node
  -- the party's next command is its own
  have hnext : ∀ p cmd rest, c.code p = cmd :: rest → cmd ≠ .sync → ∃ left',
      Goes (Ready operation p es) (cmd :: left') (c.node p) ∧
        rest = left' ++ .sync :: after operation es p := by
    intro p cmd rest h hcmd
    obtain ⟨-, rfl, -⟩ | ⟨left', hleft, rfl⟩ := append_sync_cases ((hcode p).symm.trans h)
    · exact absurd rfl hcmd
    · exact ⟨left', hleft ▸ hgoes p, rfl⟩
  cases hturn with
  | @set p i v rest h =>
      obtain ⟨left', hgo, rfl⟩ := hnext p _ _ h (by simp)
      exact ⟨hlive, hupdate p left' ((c.node p).set i v) (hflight p) hgo c.failed⟩
  | @clear p rest h =>
      obtain ⟨left', hgo, rfl⟩ := hnext p _ _ h (by simp)
      exact ⟨hlive, hupdate p left' (c.node p).clear (hflight p) hgo c.failed⟩
  | @pass p i v rest h hv =>
      obtain ⟨left', hgo, rfl⟩ := hnext p _ _ h (by simp)
      have hstage := hupdate p left' _ (hflight p) hgo.2 c.failed
      rw [Function.update_eq_self] at hstage
      exact ⟨hlive, hstage⟩
  | @fail p i v rest h hv =>
      obtain ⟨left', hgo, -⟩ := hnext p _ _ h (by simp)
      exact absurd hgo.1 hv
  | @launch p q size rest h =>
      obtain ⟨left', hgo, -⟩ := hnext p _ _ h (by simp)
      exact hgo.elim
  | @found p n rest h hn =>
      obtain ⟨left', hgo, -⟩ := hnext p _ _ h (by simp)
      exact hgo.elim
  | again => exact ⟨hlive, .apart hchained hcode hflight hgoes⟩
  | @sync rest h =>
      have hend : ∀ p, rest p = after operation es p ∧ Ready operation p es (c.node p) := by
        intro p
        have hgo := hgoes p
        obtain ⟨hleft, -, hrest⟩ | ⟨left', hleft, -⟩ := append_sync_cases ((hcode p).symm.trans (h p))
        · rw [hleft] at hgo
          exact ⟨hrest, hgo⟩
        · rw [hleft] at hgo
          exact hgo.elim
      exact ⟨hlive, .of_ready hchained (fun p => (hend p).1) hflight fun p => (hend p).2⟩
  | @copy p node h => exact absurd (hflight p) h.flight_ne_nil

/-- A turn while the client writes. -/
theorem Stage.keep_writing {e : Epoch} {es : List Epoch} {toLaunch : ℕ}
    (hlive : c.failed = false) (hop : operation = true) (hchained : Chained operation (e :: es))
    (hclient : c.code .client = List.replicate toLaunch (.launch .server e.size) ++
      .poll e.numTransfers :: (e.tail .client ++ .sync :: after operation es .client))
    (hserver : c.code .server = .poll e.numTransfers ::
      (List.replicate e.numTransfers (.launch .client e.size) ++
        (e.tail .server ++ .sync :: after operation es .server)))
    (hflight : (c.node .client).flight = []) (hcount : (c.node .client).count = 0)
    (hholds : Holds e.size (c.node .client))
    (htotal : (c.node .server).count + (c.node .server).flight.length + toLaunch =
      e.numTransfers)
    (hcarries : Carries ident e.size (c.node .server)) (hturn : Turn c c') :
    c'.failed = false ∧ Stage operation c' := by
  have hpos := hchained.1.pos
  have hword : ∀ n ≤ e.numTransfers, word n = n := fun n hn =>
    word_of_lt (Nat.lt_of_le_of_lt hn hchained.1.lt)
  -- the client launches and then waits, the server waits
  have hnext : ∀ p cmd rest, c.code p = cmd :: rest →
      (p = .client ∧ ∃ m, toLaunch = m + 1 ∧ cmd = .launch .server e.size ∧
        rest = List.replicate m (.launch .server e.size) ++
          .poll e.numTransfers :: (e.tail .client ++ .sync :: after operation es .client)) ∨
      (cmd = .poll e.numTransfers ∧ (p = .client ∧ toLaunch = 0 ∨ p = .server ∧ rest =
        List.replicate e.numTransfers (.launch .client e.size) ++
          (e.tail .server ++ .sync :: after operation es .server))) := by
    intro p cmd rest h
    cases p with
    | client =>
        obtain ⟨hzero, htail⟩ | ⟨m, hm, rfl, rfl⟩ := append_launch_cases (hclient.symm.trans h)
        · exact .inr ⟨(List.cons.inj htail).1.symm, .inl ⟨rfl, hzero⟩⟩
        · exact .inl ⟨rfl, m, hm, rfl, rfl⟩
    | server =>
        obtain ⟨rfl, rfl⟩ := List.cons.inj (hserver.symm.trans h)
        exact .inr ⟨rfl, .inr ⟨rfl, rfl⟩⟩
  cases hturn with
  | set h | clear h | pass h | fail h =>
      obtain ⟨-, m, -, hcmd, -⟩ | ⟨hcmd, -⟩ := hnext _ _ _ h <;> cases hcmd
  | sync h => obtain ⟨-, m, -, hcmd, -⟩ | ⟨hcmd, -⟩ := hnext .client _ _ (h .client) <;> cases hcmd
  | again =>
      exact ⟨hlive, .writing hop hchained hclient hserver hflight hcount hholds htotal hcarries⟩
  | @launch p q size rest h =>
      obtain ⟨rfl, m, rfl, hcmd, hrest⟩ | ⟨hcmd, -⟩ := hnext _ _ _ h
      · cases hcmd
        have hserver' : Function.update c.code .client rest .server = _ :=
          (update_peer c.code .client rest).trans hserver
        have hnode : Function.update c.node .server ((c.node .server).launch e.size) .client =
            c.node .client := update_peer c.node .server _
        refine ⟨hlive, .writing hop hchained
          ((Function.update_self Side.client rest c.code).trans hrest) hserver' (hnode ▸ hflight)
          (hnode ▸ hcount) (hnode ▸ hholds) ?_ ?_⟩
        · simp only [Function.update_self, Node.launch_count, Node.launch_flight_length]
          omega
        · simpa only [Function.update_self] using hcarries.launch
      · cases hcmd
  | @found p n rest h hn =>
      obtain ⟨-, m, -, hcmd, -⟩ | ⟨hcmd, ⟨rfl, -⟩ | ⟨rfl, hrest⟩⟩ := hnext _ _ _ h
      · cases hcmd
      · -- nothing has come to the client yet
        cases hcmd
        rw [hcount, hword 0 (Nat.zero_le _)] at hn
        omega
      · -- all that the client writes has arrived, and the server starts to write back
        cases hcmd
        rw [hword _ (by omega)] at hn
        obtain rfl : toLaunch = 0 := by omega
        have hempty : (c.node .server).flight = [] := List.eq_nil_of_length_eq_zero (by omega)
        have hclient' : Function.update c.code .server rest .client =
            List.replicate 0 (.launch .client e.size) ++ .poll e.numTransfers ::
              (e.tail .client ++ .sync :: after operation es .client) :=
          (update_peer c.code .server rest).trans hclient
        have harrived : Holds e.size (c.node .server) := hcarries.arrived_of_count (by omega)
        refine ⟨hlive, .fetching hchained hclient'
          ((Function.update_self Side.server rest c.code).trans hrest) (fun _ hcmd => hcmd) hempty
          (hchained.1.server _ harrived) ?_ fun _ => ⟨harrived, ?_⟩⟩
        · simp [hcount, hflight]
        · exact ⟨by simp [hflight], by simp [hflight], fun i hi => .inl (hholds i hi)⟩
  | @copy p node h =>
      cases p with
      | client => exact absurd hflight h.flight_ne_nil
      | server =>
          have hnode : Function.update c.node .server node .client = c.node .client :=
            update_peer c.node .server _
          refine ⟨hlive, .writing hop hchained hclient hserver (hnode ▸ hflight) (hnode ▸ hcount)
            (hnode ▸ hholds) ?_ ?_⟩
          · simp only [Function.update_self, h.total]
            exact htotal
          · simpa only [Function.update_self] using hcarries.moves hholds h

/-- A turn while copies go to the client. -/
theorem Stage.keep_fetching {e : Epoch} {es : List Epoch} {toRead toWrite : ℕ} {left : List Cmd}
    (hlive : c.failed = false) (hchained : Chained operation (e :: es))
    (hclient : c.code .client = List.replicate toRead (.launch .client e.size) ++
      .poll e.numTransfers :: (e.tail .client ++ .sync :: after operation es .client))
    (hserver : c.code .server = List.replicate toWrite (.launch .client e.size) ++
      (left ++ .sync :: after operation es .server))
    (hleft : ∀ cmd ∈ left, cmd ∈ e.tail .server)
    (hflight : (c.node .server).flight = [])
    (hgoes : Goes (Ready operation .server es) left (c.node .server))
    (htotal : (c.node .client).count + (c.node .client).flight.length + (toRead + toWrite) =
      e.numTransfers)
    (hcarries : Honest (e.tail .server) →
      Holds e.size (c.node .server) ∧ Carries ident e.size (c.node .client))
    (hturn : Turn c c') : c'.failed = false ∧ Stage operation c' := by
  have hpos := hchained.1.pos
  -- the client launches and then waits
  have hfirst : ∀ cmd rest, c.code .client = cmd :: rest →
      (∃ m, toRead = m + 1 ∧ cmd = .launch .client e.size ∧
        rest = List.replicate m (.launch .client e.size) ++
          .poll e.numTransfers :: (e.tail .client ++ .sync :: after operation es .client)) ∨
      toRead = 0 ∧ cmd = .poll e.numTransfers ∧
        rest = e.tail .client ++ .sync :: after operation es .client := by
    intro cmd rest h
    obtain ⟨hzero, htail⟩ | hlaunch := append_launch_cases (hclient.symm.trans h)
    · obtain ⟨rfl, rfl⟩ := List.cons.inj htail
      exact .inr ⟨hzero, rfl, rfl⟩
    · exact .inl hlaunch
  -- the server launches and then goes on by itself
  have hsecond : ∀ cmd rest, c.code .server = cmd :: rest →
      (∃ m, toWrite = m + 1 ∧ cmd = .launch .client e.size ∧
        rest = List.replicate m (.launch .client e.size) ++
          (left ++ .sync :: after operation es .server)) ∨
      cmd = .sync ∨ toWrite = 0 ∧ ∃ left', rest = left' ++ .sync :: after operation es .server ∧
        cmd ∈ e.tail .server ∧ (∀ u ∈ left', u ∈ e.tail .server) ∧
        Goes (Ready operation .server es) (cmd :: left') (c.node .server) := by
    intro cmd rest h
    obtain ⟨hzero, htail⟩ | hlaunch := append_launch_cases (hserver.symm.trans h)
    · obtain ⟨-, rfl, -⟩ | ⟨left', rfl, rfl⟩ := append_sync_cases htail
      · exact .inr (.inl rfl)
      · exact .inr (.inr ⟨hzero, left', rfl, hleft _ List.mem_cons_self,
          fun u hu => hleft u (List.mem_cons_of_mem _ hu), hgoes⟩)
    · exact .inl hlaunch
  -- a command of its own keeps the copies as they are
  have hown : ∀ left' node, toWrite = 0 → (∀ u ∈ left', u ∈ e.tail .server) →
      node.flight = [] → Goes (Ready operation .server es) left' node →
      (Honest (e.tail .server) → Holds e.size node) → Stage operation
        ⟨Function.update c.code .server (left' ++ .sync :: after operation es .server),
          Function.update c.node .server node, c.failed⟩ := by
    intro left' node hzero hleft' hnode hgoes' hholds
    have hclient' : Function.update c.code .server
        (left' ++ .sync :: after operation es .server) .client = _ :=
      (update_peer c.code .server _).trans hclient
    have hserver' : Function.update c.code .server
        (left' ++ .sync :: after operation es .server) .server =
        List.replicate 0 (.launch .client e.size) ++
          (left' ++ .sync :: after operation es .server) := Function.update_self ..
    have hother : Function.update c.node .server node .client = c.node .client :=
      update_peer c.node .server node
    have hself : Function.update c.node .server node .server = node := Function.update_self ..
    refine .fetching hchained hclient' hserver' hleft' (hself ▸ hnode) (hself ▸ hgoes') ?_ ?_
    · simp only [hother]
      omega
    · simp only [hself, hother]
      exact fun hhonest => ⟨hholds hhonest, (hcarries hhonest).2⟩
  have hholds := fun hhonest => (hcarries hhonest).1
  cases hturn with
  | @set p i v rest h =>
      cases p with
      | client => obtain ⟨m, -, hcmd, -⟩ | ⟨-, hcmd, -⟩ := hfirst _ _ h <;> cases hcmd
      | server =>
          obtain ⟨m, -, hcmd, -⟩ | hcmd | ⟨hzero, left', rfl, hmem, hleft', hgo⟩ := hsecond _ _ h
          · cases hcmd
          · cases hcmd
          · exact ⟨hlive, hown left' ((c.node .server).set i v) hzero hleft' hflight hgo
              fun hhonest => (hholds hhonest).set (hhonest i v hmem)⟩
  | @clear p rest h =>
      cases p with
      | client => obtain ⟨m, -, hcmd, -⟩ | ⟨-, hcmd, -⟩ := hfirst _ _ h <;> cases hcmd
      | server =>
          obtain ⟨m, -, hcmd, -⟩ | hcmd | ⟨hzero, left', rfl, -, hleft', hgo⟩ := hsecond _ _ h
          · cases hcmd
          · cases hcmd
          · exact ⟨hlive, hown left' (c.node .server).clear hzero hleft' hflight hgo hholds⟩
  | @pass p i v rest h hv =>
      cases p with
      | client => obtain ⟨m, -, hcmd, -⟩ | ⟨-, hcmd, -⟩ := hfirst _ _ h <;> cases hcmd
      | server =>
          obtain ⟨m, -, hcmd, -⟩ | hcmd | ⟨hzero, left', rfl, -, hleft', hgo⟩ := hsecond _ _ h
          · cases hcmd
          · cases hcmd
          · have hstage := hown left' (c.node .server) hzero hleft' hflight hgo.2 hholds
            rw [Function.update_eq_self] at hstage
            exact ⟨hlive, hstage⟩
  | @fail p i v rest h hv =>
      cases p with
      | client => obtain ⟨m, -, hcmd, -⟩ | ⟨-, hcmd, -⟩ := hfirst _ _ h <;> cases hcmd
      | server =>
          obtain ⟨m, -, hcmd, -⟩ | hcmd | ⟨-, left', -, -, -, hgo⟩ := hsecond _ _ h
          · cases hcmd
          · cases hcmd
          · exact absurd hgo.1 hv
  | sync h =>
      obtain ⟨m, -, hcmd, -⟩ | ⟨-, hcmd, -⟩ := hfirst _ _ (h .client) <;> cases hcmd
  | again =>
      exact ⟨hlive, .fetching hchained hclient hserver hleft hflight hgoes htotal hcarries⟩
  | @launch p q size rest h =>
      have hlaunched : Function.update c.node .client ((c.node .client).launch e.size) .client =
          (c.node .client).launch e.size := Function.update_self ..
      have hother : Function.update c.node .client ((c.node .client).launch e.size) .server =
          c.node .server := update_peer c.node .client _
      cases p with
      | client =>
          obtain ⟨m, rfl, hcmd, hrest⟩ | ⟨-, hcmd, -⟩ := hfirst _ _ h <;> cases hcmd
          have hserver' : Function.update c.code .client rest .server = _ :=
            (update_peer c.code .client rest).trans hserver
          refine ⟨hlive, .fetching hchained
            ((Function.update_self Side.client rest c.code).trans hrest) hserver' hleft
            (hother ▸ hflight) (hother ▸ hgoes) ?_ ?_⟩
          · simp only [hlaunched, Node.launch_count, Node.launch_flight_length]
            omega
          · simp only [hlaunched, hother]
            exact fun hhonest => ⟨hholds hhonest, (hcarries hhonest).2.launch⟩
      | server =>
          obtain ⟨m, rfl, hcmd, hrest⟩ | hcmd | ⟨-, left', -, -, -, hgo⟩ := hsecond _ _ h
          · cases hcmd
            have hclient' : Function.update c.code .server rest .client = _ :=
              (update_peer c.code .server rest).trans hclient
            refine ⟨hlive, .fetching hchained hclient'
              ((Function.update_self Side.server rest c.code).trans hrest) hleft
              (hother ▸ hflight) (hother ▸ hgoes) ?_ ?_⟩
            · simp only [hlaunched, Node.launch_count, Node.launch_flight_length]
              omega
            · simp only [hlaunched, hother]
              exact fun hhonest => ⟨hholds hhonest, (hcarries hhonest).2.launch⟩
          · cases hcmd
          · exact hgo.elim
  | @found p n rest h hn =>
      cases p with
      | server =>
          obtain ⟨m, -, hcmd, -⟩ | hcmd | ⟨-, left', -, -, -, hgo⟩ := hsecond _ _ h
          · cases hcmd
          · cases hcmd
          · exact hgo.elim
      | client =>
          -- all copies to the client have arrived, and it goes on by itself
          obtain ⟨m, -, hcmd, -⟩ | ⟨rfl, hcmd, hrest⟩ := hfirst _ _ h <;> cases hcmd
          rw [word_of_lt (Nat.lt_of_le_of_lt (by omega) hchained.1.lt)] at hn
          obtain rfl : toWrite = 0 := by omega
          have hempty : (c.node .client).flight = [] := List.eq_nil_of_length_eq_zero (by omega)
          have hgo := hchained.1.client (c.node .client) fun hhonest =>
            (hcarries hhonest).2.arrived_of_count (by omega)
          let left' : Side → List Cmd := fun p =>
            match p with
            | .client => e.tail .client
            | .server => left
          have hcode : ∀ p, Function.update c.code .client rest p =
              left' p ++ .sync :: after operation es p := by
            intro p
            cases p with
            | client => exact (Function.update_self ..).trans hrest
            | server => exact (update_peer c.code .client rest).trans hserver
          refine ⟨hlive, .apart hchained.2 hcode ?_ ?_⟩ <;> intro p <;> cases p
          · exact hempty
          · exact hflight
          · exact hgo
          · exact hgoes
  | @copy p node h =>
      cases p with
      | server => exact absurd hflight h.flight_ne_nil
      | client =>
          have hself : Function.update c.node .client node .client = node := Function.update_self ..
          have hother : Function.update c.node .client node .server = c.node .server :=
            update_peer c.node .client node
          refine ⟨hlive, .fetching hchained hclient hserver hleft (hother ▸ hflight)
            (hother ▸ hgoes) ?_ ?_⟩
          · simp only [hself, h.total]
            exact htotal
          · simp only [hself, hother]
            exact fun hhonest => ⟨hholds hhonest, (hcarries hhonest).2.moves (hholds hhonest) h⟩

/-- Every turn keeps the account of how far the parties have come, and no check
fails. -/
theorem Stage.keep (h : Stage operation c) (hlive : c.failed = false) (hturn : Turn c c') :
    c'.failed = false ∧ Stage operation c' := by
  cases h with
  | apart hchained hcode hflight hgoes =>
      exact keep_apart hlive hchained hcode hflight hgoes hturn
  | writing hop hchained hclient hserver hflight hcount hholds htotal hcarries =>
      exact keep_writing hlive hop hchained hclient hserver hflight hcount hholds htotal hcarries
        hturn
  | fetching hchained hclient hserver hleft hflight hgoes htotal hcarries =>
      exact keep_fetching hlive hchained hclient hserver hleft hflight hgoes htotal hcarries hturn
  | finished hcode hflight =>
      cases hturn with
      | set h | clear h | pass h | fail h | launch h | found h | again h =>
          rw [hcode] at h
          cases h
      | sync h => cases (hcode .client).symm.trans (h .client)
      | @copy p node h => exact absurd (hflight p) h.flight_ne_nil

/-- A party can go on: its next command waits for nothing, or for what is there. -/
def Config.CanGo (c : Config) (p : Side) : Prop :=
  ∃ cmd rest, c.code p = cmd :: rest ∧ cmd ≠ .sync ∧
    ∀ n, cmd = .poll n → word (c.node p).count = n

/-- Before the end there is a party that can go on, or both are at a meeting, or
a copy is under way. -/
theorem Stage.progress (h : Stage operation c) : (∀ p, c.code p = []) ∨ (∃ p, c.CanGo p) ∨
    (∀ p, ∃ rest, c.code p = .sync :: rest) ∨ ∃ p, (c.node p).flight ≠ [] := by
  cases h with
  | @apart es left hchained hcode hflight hgoes =>
      by_cases hend : ∀ p, left p = []
      · refine .inr (.inr (.inl fun p => ⟨after operation es p, ?_⟩))
        rw [hcode, hend]
        rfl
      · obtain ⟨p, hp⟩ := not_forall.mp hend
        obtain ⟨cmd, rest, hleft⟩ := List.exists_cons_of_ne_nil hp
        have hgo := hgoes p
        rw [hleft] at hgo
        have hcode' : c.code p = cmd :: (rest ++ .sync :: after operation es p) := by
          rw [hcode, hleft]
          rfl
        refine .inr (.inl ⟨p, cmd, _, hcode', ?_, ?_⟩)
        · rintro rfl
          exact hgo.elim
        · rintro n rfl
          exact hgo.elim
  | @writing e es toLaunch hop hchained hclient hserver hflight hcount hholds htotal hcarries =>
      cases toLaunch with
      | succ m => exact .inr (.inl ⟨.client, _, _, hclient, by simp, by simp⟩)
      | zero =>
          by_cases hempty : (c.node .server).flight = []
          · refine .inr (.inl ⟨.server, _, _, hserver, by simp, fun n hn => ?_⟩)
            obtain rfl := Cmd.poll.inj hn
            rw [hempty, List.length_nil] at htotal
            have := hchained.1.lt
            rw [word_of_lt (by omega)]
            omega
          · exact .inr (.inr (.inr ⟨.server, hempty⟩))
  | @fetching e es toRead toWrite left hchained hclient hserver hleft hflight hgoes htotal
      hcarries =>
      cases toRead with
      | succ m => exact .inr (.inl ⟨.client, _, _, hclient, by simp, by simp⟩)
      | zero =>
          cases toWrite with
          | succ m => exact .inr (.inl ⟨.server, _, _, hserver, by simp, by simp⟩)
          | zero =>
              by_cases hempty : (c.node .client).flight = []
              · refine .inr (.inl ⟨.client, _, _, hclient, by simp, fun n hn => ?_⟩)
                obtain rfl := Cmd.poll.inj hn
                rw [hempty, List.length_nil] at htotal
                have := hchained.1.lt
                rw [word_of_lt (by omega)]
                omega
              · exact .inr (.inr (.inr ⟨.client, hempty⟩))
  | finished hcode hflight => exact .inl hcode

/-- A party clears its counter, and changes and checks its buffer, only while no
copy is under way to it. -/
theorem Stage.quiet (h : Stage operation c) {p : Side} {cmd : Cmd} {rest : List Cmd}
    (hcode : c.code p = cmd :: rest) (hcmd : cmd = .clear ∨ cmd = .sync ∨
      (∃ i v, cmd = .set i v) ∨ ∃ i v, cmd = .check i v) : (c.node p).flight = [] := by
  cases h with
  | apart hchained hcode' hflight hgoes => exact hflight p
  | finished hcode' hflight => exact hflight p
  | writing hop hchained hclient hserver hflight hcount hholds htotal hcarries =>
      cases p with
      | client => exact hflight
      | server =>
          obtain ⟨rfl, -⟩ := List.cons.inj (hserver.symm.trans hcode)
          simp at hcmd
  | fetching hchained hclient hserver hleft hflight hgoes htotal hcarries =>
      cases p with
      | server => exact hflight
      | client =>
          obtain ⟨-, htail⟩ | ⟨m, -, rfl, -⟩ := append_launch_cases (hclient.symm.trans hcode)
          · obtain ⟨rfl, -⟩ := List.cons.inj htail
            simp at hcmd
          · simp at hcmd

end PyCoyote.Rdma
