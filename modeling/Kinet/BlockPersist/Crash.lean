import Kinet.Foundation.History

/-!
# Block files and crashes

Headers and bodies are kept in files named by their ids, and the heads of the chain are
symbolic links to headers.  A call is a list of file-system operations, with one operation for
each byte of a file; a crash is a cut of that list.  Time stamps are left out.

Main results:

- `persisted`: with crashes before or after the operations of a call, what was written
  is read, and the heads can be updated.
- `crash_inside_call`: a crash in between leaves a file that is taken for complete, or
  a link that stops all further updates of its head.
-/

namespace Kinet.BlockPersist

open Function List

inductive Head where
  | proposed
  | voted
  | finalized
deriving DecidableEq

inductive Path (Id : Type) where
  | file (id : Id)
  | link (head : Head)
  /-- the intermediate name of a link -/
  | wip (head : Head)
deriving DecidableEq

inductive Inode (Id : Type) where
  | file (bytes : List UInt8)
  | symlink (target : Path Id)
deriving DecidableEq

abbrev Files (Id : Type) := Path Id → Option (Inode Id)

inductive FileOp (Id : Type) where
  | create (path : Path Id)
  | append (path : Path Id) (byte : UInt8)
  | symlink (target path : Path Id)
  | rename (source path : Path Id)

section

variable {Id : Type} [DecidableEq Id]

/-- The files after an operation, unless it fails. -/
def FileOp.run (fs : Files Id) : FileOp Id → Option (Files Id)
  | .create path => some (update fs path (some (.file [])))
  | .append path byte =>
    match fs path with
    | some (.file bytes) => some (update fs path (some (.file (bytes ++ [byte]))))
    | _ => none
  | .symlink target path =>
    if (fs path).isSome then none else some (update fs path (some (.symlink target)))
  | .rename source path =>
    match fs source with
    | some inode => some (update (update fs path (some inode)) source none)
    | none => none

/-- Run operations up to the first that fails; the answer says whether there was none. -/
def exec : List (FileOp Id) → Files Id → Files Id × Bool
  | [], fs => (fs, true)
  | op :: ops, fs =>
    match op.run fs with
    | some fs' => exec ops fs'
    | none => (fs, false)

/-- Bytes that are written one after another make up the file. -/
lemma exec_append {path : Path Id} {fs : Files Id} {bytes : List UInt8}
    (h : fs path = some (.file bytes)) (rest : List UInt8) :
    exec (rest.map (.append path)) fs =
      (update fs path (some (.file (bytes ++ rest))), true) := by
  induction rest generalizing fs bytes with
  | nil => simp [exec, ← h]
  | cons byte rest ih =>
    simp only [map_cons, exec, FileOp.run, h]
    rw [ih (update_self ..)]
    simp

end

/-! ## Headers and bodies -/

/-- Headers, bodies, their ids and their encodings. -/
structure Codec (Header Body BlockId BodyId : Type) where
  getId : Header → BlockId
  getBodyId : Body → BodyId
  encode : Header ⊕ Body → List UInt8
  decodeHeader : List UInt8 → Option Header
  decodeBody : List UInt8 → Option Body
  getId_injective : Function.Injective getId
  getBodyId_injective : Function.Injective getBodyId
  decodeHeader_encode : ∀ h, decodeHeader (encode (.inl h)) = some h
  decodeBody_encode : ∀ b, decodeBody (encode (.inr b)) = some b

variable {Header Body BlockId BodyId : Type} [DecidableEq BlockId] [DecidableEq BodyId]
  (C : Codec Header Body BlockId BodyId)

def Codec.name : Header ⊕ Body → BlockId ⊕ BodyId := Sum.map C.getId C.getBodyId

inductive Call (Header Body BlockId : Type) where
  | writeBftHeader (block : Header)
  | writeBftBody (body : Body)
  | updateHead (head : Head) (blockId : BlockId)
deriving DecidableEq

/-- Write a file, unless it is there. -/
def write (value : Header ⊕ Body) (fs : Files (BlockId ⊕ BodyId)) :
    List (FileOp (BlockId ⊕ BodyId)) :=
  let path := Path.file (C.name value)
  if (fs path).isSome then [] else .create path :: (C.encode value).map (.append path)

def atomicSymlinkUpdate (target : Path (BlockId ⊕ BodyId)) (head : Head) :
    List (FileOp (BlockId ⊕ BodyId)) :=
  [.symlink target (.wip head), .rename (.wip head) (.link head)]

section

variable (fs : Files (BlockId ⊕ BodyId))

def Call.ops : Call Header Body BlockId → List (FileOp (BlockId ⊕ BodyId))
  | .writeBftHeader block => write C (.inl block) fs
  | .writeBftBody body => write C (.inr body) fs
  | .updateHead head blockId => atomicSymlinkUpdate (.file (.inl blockId)) head

def contents (path : Path (BlockId ⊕ BodyId)) : Option (List UInt8) :=
  match fs path with
  | some (.file bytes) => some bytes
  | some (.symlink target) =>
    match fs target with
    | some (.file bytes) => some bytes
    | _ => none
  | none => none

def readBftHeader (blockId : BlockId) : Option Header :=
  (contents fs (.file (.inl blockId))).bind C.decodeHeader

def readBftBody (bodyId : BodyId) : Option Body :=
  (contents fs (.file (.inr bodyId))).bind C.decodeBody

def readHead (head : Head) : Option Header :=
  (contents fs (.link head)).bind C.decodeHeader

end

inductive Event (Header Body BlockId : Type) where
  | call (call : Call Header Body BlockId)
  /-- a crash in a call, after `done` of its operations, and a restart -/
  | crash (call : Call Header Body BlockId) (done : Nat)
deriving DecidableEq

/-- The answer is whether the call succeeded, if it returned. -/
def step (fs : Files (BlockId ⊕ BodyId)) :
    Event Header Body BlockId → Checked (Files (BlockId ⊕ BodyId) × Option Bool)
  | .call call => pure ((exec (call.ops C fs) fs).1, some (exec (call.ops C fs) fs).2)
  | .crash call done => pure ((exec ((call.ops C fs).take done) fs).1, none)

/-! ## Runs -/

/-- A crash comes before the first or after the last operation of its call. -/
def BetweenCalls {ω : Type} (_ : List ω) (fs : Files (BlockId ⊕ BodyId)) :
    Event Header Body BlockId → Prop
  | .call _ => True
  | .crash call done => done = 0 ∨ (call.ops C fs).length ≤ done

instance {ω : Type} (history : List ω) (fs : Files (BlockId ⊕ BodyId)) :
    (e : Event Header Body BlockId) → Decidable (BetweenCalls C history fs e)
  | .call _ => isTrue trivial
  | .crash _ _ => inferInstanceAs (Decidable (_ ∨ _))

/-- Files are complete, and no intermediate link is left. -/
structure Complete (fs : Files (BlockId ⊕ BodyId)) : Prop where
  files : ∀ id inode, fs (.file id) = some inode →
    ∃ value, C.name value = id ∧ inode = .file (C.encode value)
  links : ∀ head, fs (.wip head) = none

variable {C}

omit [DecidableEq BlockId] [DecidableEq BodyId] in
lemma Codec.name_injective : Function.Injective C.name :=
  Sum.map_injective.mpr ⟨C.getId_injective, C.getBodyId_injective⟩

variable {fs : Files (BlockId ⊕ BodyId)}

lemma Complete.write (h : Complete C fs) (value : Header ⊕ Body) : exec (write C value fs) fs =
      (update fs (.file (C.name value)) (some (.file (C.encode value))), true) := by
  unfold BlockPersist.write
  cases hfile : fs (.file (C.name value)) with
  | none =>
    rw [if_neg (by simp [hfile]), exec, FileOp.run]
    simp only [exec_append (update_self ..), update_idem, nil_append]
  | some inode =>
    obtain ⟨value', hname, rfl⟩ := h.files _ _ hfile
    obtain rfl := C.name_injective hname
    rw [if_pos (by simp [hfile]), ← hfile, update_eq_self]
    rfl

lemma Complete.updateHead (h : Complete C fs) (head : Head) (target : Path (BlockId ⊕ BodyId)) :
    exec (atomicSymlinkUpdate target head) fs =
      (update fs (.link head) (some (.symlink target)), true) := by
  simp only [atomicSymlinkUpdate, exec, FileOp.run, h.links, Option.isSome_none,
    Bool.false_eq_true, if_false, update_self]
  congr 1
  funext path
  by_cases hwip : path = .wip head
  · subst hwip
    simp [h.links]
  · by_cases hlink : path = .link head <;> simp [hwip, hlink]

lemma Complete.call (h : Complete C fs) (call : Call Header Body BlockId) :
    (exec (call.ops C fs) fs).2 = true ∧ Complete C (exec (call.ops C fs) fs).1 ∧
      ∀ id inode, fs (.file id) = some inode →
        (exec (call.ops C fs) fs).1 (.file id) = some inode := by
  have hwrite : ∀ value, call.ops C fs = BlockPersist.write C value fs →
      (exec (call.ops C fs) fs).2 = true ∧ Complete C (exec (call.ops C fs) fs).1 ∧
      ∀ id inode, fs (.file id) = some inode →
        (exec (call.ops C fs) fs).1 (.file id) = some inode := by
    intro value hops
    rw [hops, h.write value]
    refine ⟨rfl, ⟨?_, fun head => by simpa [update_apply] using h.links head⟩, ?_⟩
    · intro id inode hid
      by_cases heq : id = C.name value
      · subst heq
        exact ⟨value, rfl, by simpa using hid.symm⟩
      · exact h.files id inode (by simpa [update_apply, heq] using hid)
    · intro id inode hid
      by_cases heq : id = C.name value
      · subst heq
        obtain ⟨value', hname, rfl⟩ := h.files _ _ hid
        simp [C.name_injective hname]
      · simpa [update_apply, heq] using hid
  cases call with
  | writeBftHeader block => exact hwrite (.inl block) rfl
  | writeBftBody body => exact hwrite (.inr body) rfl
  | updateHead head blockId =>
    simp only [Call.ops, h.updateHead head, update_apply, reduceCtorEq, if_false]
    refine ⟨trivial, ⟨?_, ?_⟩, fun _ _ hid => hid⟩
    · intro id inode hid
      exact h.files id inode (by simpa [update_apply] using hid)
    · intro head'
      simpa [update_apply] using h.links head'

def Call.value? : Call Header Body BlockId → Option (Header ⊕ Body)
  | .writeBftHeader block => some (.inl block)
  | .writeBftBody body => some (.inr body)
  | .updateHead _ _ => none

/-- **Blocks survive crashes between calls.**  If every crash comes before the first or after the
last operation of its call, then whatever was written with success is read back, and an update
of a head succeeds and makes the head read the header of the given id. -/
theorem persisted {history : List (Event Header Body BlockId × Option Bool)}
    {fs : Files (BlockId ⊕ BodyId)}
    (hrun : Run (step C) (BetweenCalls C) (fun _ => none) history fs) :
    (∀ block, (.call (.writeBftHeader block), some true) ∈ history →
      readBftHeader C fs (C.getId block) = some block) ∧
    (∀ body, (.call (.writeBftBody body), some true) ∈ history →
      readBftBody C fs (C.getBodyId body) = some body) ∧
    ∀ head blockId, ∃ fs', step C fs (.call (.updateHead head blockId)) = .ok (fs', some true) ∧
      readHead C fs' head = readBftHeader C fs' blockId := by
  have hinv : Complete C fs ∧ ∀ call value, call.value? = some value →
      (Event.call call, some true) ∈ history →
      fs (.file (C.name value)) = some (.file (C.encode value)) := by
    apply hrun.invariant (I := fun history fs => Complete C fs ∧
      ∀ call value, call.value? = some value → (Event.call call, some true) ∈ history →
      fs (.file (C.name value)) = some (.file (C.encode value)))
    · exact ⟨⟨by simp, by simp⟩, by simp⟩
    · rintro history fs e fs' o ⟨hcomplete, hwritten⟩ hbetween hstep
      cases e with
      | call call =>
        cases hstep
        obtain ⟨-, hcomplete', hkept⟩ := hcomplete.call call
        refine ⟨hcomplete', fun call' value hvalue hmem => ?_⟩
        rcases mem_append.mp hmem with hmem | hmem
        · exact hkept _ _ (hwritten call' value hvalue hmem)
        · obtain ⟨rfl, -⟩ : call' = call ∧ _ := by simpa using hmem
          have hops : call'.ops C fs = write C value fs := by
            cases call' <;> cases hvalue <;> rfl
          simp [hops, hcomplete.write value]
      | crash call done =>
        cases hstep
        rcases hbetween with rfl | hdone
        · refine ⟨hcomplete, fun call' value hvalue hmem => hwritten call' value hvalue ?_⟩
          simpa using hmem
        · rw [take_of_length_le hdone]
          obtain ⟨-, hcomplete', hkept⟩ := hcomplete.call call
          refine ⟨hcomplete', fun call' value hvalue hmem => ?_⟩
          exact hkept _ _ (hwritten call' value hvalue (by simpa using hmem))
  obtain ⟨hcomplete, hwritten⟩ := hinv
  refine ⟨fun block hmem => ?_, fun body hmem => ?_, fun head blockId =>
    ⟨update fs (.link head) (some (.symlink (.file (.inl blockId)))), ?_, ?_⟩⟩
  · have hfile := hwritten _ _ rfl hmem
    simp_all [readBftHeader, contents, Codec.name, C.decodeHeader_encode]
  · have hfile := hwritten _ _ rfl hmem
    simp_all [readBftBody, contents, Codec.name, C.decodeBody_encode]
  · simp [step, Call.ops, hcomplete.updateHead, pure, Except.pure]
  · simp only [readHead, readBftHeader, contents, update_self]
    cases hfile : fs (.file (.inl blockId)) with
    | none => simp [hfile]
    | some inode =>
      obtain ⟨value, -, rfl⟩ := hcomplete.files _ _ hfile
      simp [hfile]

/-- Headers and bodies of one byte, written twice. -/
def sampleCodec : Codec UInt8 UInt8 UInt8 UInt8 where
  getId := id
  getBodyId := id
  encode := Sum.elim (fun h => [h, h]) (fun b => [b, b])
  decodeHeader := fun bytes => if bytes.length = 2 then bytes.head? else none
  decodeBody := fun bytes => if bytes.length = 2 then bytes.head? else none
  getId_injective := injective_id
  getBodyId_injective := injective_id
  decodeHeader_encode := by simp
  decodeBody_encode := by simp

/-- The events of a restart before a header is written. -/
theorem persisted_sample :
    ∃ history fs, Run (step sampleCodec) (BetweenCalls sampleCodec) (fun _ => none) history fs ∧
      (.call (.writeBftHeader 7), some true) ∈ history ∧
      readBftHeader sampleCodec fs 7 = some 7 := by
  obtain ⟨history, fs, hrun, hlast⟩ := Run.exists_of_replay (step sampleCodec)
    (BetweenCalls sampleCodec) (fun _ => none)
    [.crash (.writeBftHeader 7) 0, .call (.writeBftHeader 7)]
    (P := fun history _ => (.call (.writeBftHeader 7), some true) ∈ history) (by decide +kernel)
  exact ⟨history, fs, hrun, hlast, (persisted hrun).1 7 hlast⟩

/-- **A crash inside a call.**  A header of which one byte was written is taken for complete, and
is not read; and a link that was not renamed makes every later update of the head fail. -/
theorem crash_inside_call :
    (∃ history fs, Run (step sampleCodec) (fun _ _ _ => True) (fun _ => none) history fs ∧
      (.call (.writeBftHeader 7), some true) ∈ history ∧
      readBftHeader sampleCodec fs 7 = none) ∧
    ∃ history fs, Run (step sampleCodec) (fun _ _ _ => True) (fun _ => none) history fs ∧
      (.call (.updateHead .voted 7), some false) ∈ history := by
  constructor
  · exact Run.exists_of_replay _ _ _ [.crash (.writeBftHeader 7) 2, .call (.writeBftHeader 7)]
      (by decide +kernel)
  · exact Run.exists_of_replay _ _ _ [.crash (.updateHead .voted 7) 1, .call (.updateHead .voted 7)]
      (by decide +kernel)

end Kinet.BlockPersist
