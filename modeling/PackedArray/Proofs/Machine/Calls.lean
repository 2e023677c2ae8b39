import PackedArray.Proofs.CallRuns
import PackedArray.Proofs.Machine.FlatForm
import PackedArray.Proofs.Machine.Operators
import PackedArray.Proofs.Machine.Table

/-!
# PackedArray.Proofs.Machine.Calls

Foreign calls in machine words.

A call that breaks off replies that it did, and if it held the arrays at that time it
seals the registry.  `Registry.Safe` is what calls rely on: the arrays behind handles
are such as can be obtained, and the indices of vacant slots are indices of slots.

* `Registry.Safe.call` — a call keeps what calls rely on;
* `call_eq` — a call never breaks off, and does what the library's own does;
* `run_unbroken` — a run of calls from the start never breaks off.
-/

namespace PackedArray

open NdArray (Obtained)

/-! ## what calls rely on -/

namespace Registry

/-- What calls rely on. -/
structure Safe (r : Registry) : Prop where
  isOpen : r.isSealed = false
  inBounds : r.table.InBounds
  obtained : r.table.Each (Obtained Tag.Admits)

theorem safe_empty : empty.Safe where
  isOpen := rfl
  inBounds := fun i hi => by contradiction
  obtained := fun i generation a hslot => by simp [empty] at hslot

/-- Double-precision arrays are made under the layout of their kind. -/
theorem admits_float8 : Tag.float8.Admits float8Layout := by
  intro k hk
  cases hk
  rfl

variable {r : Registry}

namespace Safe

variable (hr : r.Safe)

include hr

theorem obtained_of_resolve {h : UInt64} {a : NdArray} (hresolve : r.resolve h = .ok a) :
    Obtained Tag.Admits a := by
  rw [resolve_eq hr.isOpen] at hresolve
  cases hget : r.table.get? h with
  | none => simp [hget] at hresolve
  | some b =>
      rw [hget] at hresolve
      cases hresolve
      exact hr.obtained.of_get? hget

theorem publish {a : NdArray} (ha : Obtained Tag.Admits a) : (r.publish a).1.Safe := by
  rw [Registry.publish, if_neg (by simp [hr.isOpen])]
  exact ⟨hr.isOpen, hr.inBounds.insert a, hr.obtained.insert ha⟩

theorem publishBuilt {built : Except ArrayError NdArray}
    (ha : ∀ a, built = .ok a → Obtained Tag.Admits a) : (r.publishBuilt built).1.Safe := by
  cases built with
  | error e => exact hr
  | ok a => exact hr.publish (ha a rfl)

theorem destroy (h : UInt64) : (r.destroy h).1.Safe := by
  rw [Registry.destroy, if_neg (by simp [hr.isOpen])]
  cases hremove : r.table.remove? h with
  | none => exact hr
  | some taken => exact ⟨hr.isOpen, hr.inBounds.remove hremove, hr.obtained.remove hremove⟩

theorem scale (op : NumericOp) (handle : UInt64) (number : Double) (out : Bool) :
    (r.scale (fun a scalar => mapScalar a scalar op.combine) handle number out).1.Safe := by
  unfold Registry.scale
  split
  · exact hr
  · split
    · exact hr
    · next a hresolve =>
        split
        · exact hr
        · next scalar hscalar =>
            split
            · next made hmade =>
                have hsource := hr.obtained_of_resolve hresolve
                exact hr.publish (.mapScalar (fun _ => hsource) hmade)
            · next e he =>
                have hrefusal : e.Refuses := mapScalar_refuses hscalar e he
                rw [if_neg (Status.ne_panicked_of_isRefusal hrefusal)]
                exact hr

/-- **A call keeps** what calls rely on. -/
theorem call (c : Call) : (r.call c).1.Safe := by
  cases c with
  | create values out =>
      rw [Registry.call, create]
      split
      · exact hr
      · split
        · exact hr
        · split
          · exact hr
          · exact hr.publishBuilt fun a h => .ofElements admits_float8 h
  | createShaped values nulls dims lbounds out =>
      unfold Registry.call createShaped
      simp only
      split
      · exact hr
      · split
        · exact hr.publishBuilt fun a h => .ofElements admits_float8 h
        · exact hr
  | decode bytes out =>
      rw [Registry.call, decode]
      split
      · exact hr
      · split
        · exact hr
        · exact hr.publishBuilt fun a h => .decode h
  | destroy h => exact hr.destroy h
  | ndim | itemCount | read | encode | dot => exact hr
  | scalarMult h factor out => exact hr.scale .mult h factor out
  | scalarDiv h divisor out => exact hr.scale .div h divisor out

/-- Runs of calls keep what calls rely on. -/
theorem run (calls : List Call) : (r.run calls).1.Safe := by
  induction calls generalizing r with
  | nil => exact hr
  | cons c calls ih => exact ih (hr.call c)

end Safe

end Registry

namespace Machine

open Registry (Safe float8Layout)

/-! ## calls -/

/-- What comes of a call that holds the arrays: if it breaks off, they are sealed. -/
def held (r : Registry) (x : Run Empty (Registry × Reply)) : Registry × Reply :=
  match x with
  | .ok done => done
  | .error _ => ({ r with isSealed := true }, .of .panicked)

def publish (r : Registry) (a : NdArray) : Registry × Reply :=
  if r.isSealed then (r, .of .internalError)
  else held r do
    let (handle, table) ← insert r.table a
    return ({ r with table }, { status := .ok, handle := some handle })

/-- Arrays are built before the others are held. -/
def publishBuilt (r : Registry) (built : Run ArrayError NdArray) : Registry × Reply :=
  match built with
  | .ok a => publish r a
  | .error .broken => (r, .of .panicked)
  | .error (.reported e) => (r, .of e.status)

def create (r : Registry) (values : Span Double) (out : Bool) : Registry × Reply :=
  if !out then (r, .of .invalidArgument)
  else
    match values.borrow with
    | none => (r, .of .invalidArgument)
    | some xs =>
      if maxProduct < values.length then (r, .of .capacityExceeded)
      else
        publishBuilt r (ofElements (xs.map Scalar.ofDouble) none [Int32.ofNat values.length] [1]
          Tag.float8 float8Layout)

def createShaped (r : Registry) (values : Span Double) (nulls : Option (List UInt8))
    (dims : Span Int32) (lbounds : Option (List Int32)) (out : Bool) : Registry × Reply :=
  if !out then (r, .of .invalidArgument)
  else
    match values.borrow, dims.borrow with
    | some xs, some extents =>
      let bounds := match lbounds with
        | some bs => bs.take dims.length
        | none => List.replicate dims.length 1
      let flags := nulls.map fun bs => (bs.take values.length).map (· != 0)
      publishBuilt r (ofElements (xs.map Scalar.ofDouble) flags extents bounds Tag.float8
        float8Layout)
    | _, _ => (r, .of .invalidArgument)

/-- A decoded array has its items counted, for the trace. -/
def decodeCounted (buf : List UInt8) : Run ArrayError NdArray := do
  let a ← decode buf
  let _ ← size a
  return a

def decodeCall (r : Registry) (bytes : Span UInt8) (out : Bool) : Registry × Reply :=
  if !out then (r, .of .invalidArgument)
  else
    match bytes.borrow with
    | none => (r, .of .invalidArgument)
    | some buf => publishBuilt r (decodeCounted buf)

/-- Answer a question about one array; the arrays are held until the reply. -/
def inquire (r : Registry) (handle : UInt64) (out : Bool) (answer : NdArray → Run Empty Reply) :
    Registry × Reply :=
  if !out then (r, .of .invalidArgument)
  else
    match r.resolve handle with
    | .error s => (r, .of s)
    | .ok a => held r do
      let reply ← answer a
      return (r, reply)

/-- The items of an array, widened to double precision; nulls are refused. -/
def readValues (a : NdArray) : Run Status (List Double) := do
  let layout ← lift (a.tag.layout.mapError ScalarError.status)
  let elems ← rethrow ArrayError.status (toScalars a a.tag layout)
  rethrow ScalarError.status (elems.mapM (widen · a.tag))

def countReply (a : NdArray) : Run Empty Reply := do
  let n ← size a
  return { status := .ok, count := some n }

def readReply (cap : Nat) (buf : Bool) (a : NdArray) : Run Empty Reply := do
  let n ← size a
  if cap < n then return { status := .bufferTooSmall, count := some n }
  match ← attempt (readValues a) with
  | .error s => return { status := s, count := some n }
  | .ok xs =>
    if n ≠ 0 && !buf then return { status := .invalidArgument, count := some n }
    return { status := .ok, count := some n, values := some xs }

def encodeReply (cap : Nat) (buf : Bool) (a : NdArray) : Run Empty Reply := do
  match ← attempt (encode a) with
  | .error e => return .of e.status
  | .ok bs =>
    if cap < bs.length then return { status := .bufferTooSmall, count := some bs.length }
    if !buf then return { status := .invalidArgument, count := some bs.length }
    return { status := .ok, count := some bs.length, bytes := some bs }

def dotReply (r : Registry) (right : UInt64) (a : NdArray) : Run Empty Reply :=
  match r.resolve right with
  | .error s => .ok (.of s)
  | .ok b => do
    match ← attempt (dotProduct a b) with
    | .ok v => return { status := .ok, number := some v }
    | .error e => return .of e.status

/-- Apply an operator to the array behind a handle, which is held meanwhile. -/
def scale (r : Registry) (op : NumericOp) (handle : UInt64) (number : Double) (out : Bool) :
    Registry × Reply :=
  if !out then (r, .of .invalidArgument)
  else
    match r.resolve handle with
    | .error s => (r, .of s)
    | .ok a =>
      let scaled := do
        let scalar ← lift (liftScalar (number.narrow a.tag))
        mapScalar a scalar (combine op)
      match scaled with
      | .ok made => publish r made
      | .error .broken => ({ r with isSealed := true }, .of .panicked)
      | .error (.reported e) => (r, .of e.status)

/-- Run one call. -/
def call (r : Registry) : Call → Registry × Reply
  | .create values out => create r values out
  | .createShaped values nulls dims lbounds out => createShaped r values nulls dims lbounds out
  | .destroy handle => r.destroy handle
  | .ndim handle out => inquire r handle out fun a => .ok { status := .ok, ndim := some a.ndim }
  | .itemCount handle out => inquire r handle out countReply
  | .read handle cap buf out => inquire r handle out (readReply cap buf)
  | .dot left right out => inquire r left out (dotReply r right)
  | .scalarMult handle factor out => scale r .mult handle factor out
  | .scalarDiv handle divisor out => scale r .div handle divisor out
  | .encode handle cap buf out => inquire r handle out (encodeReply cap buf)
  | .decode bytes out => decodeCall r bytes out

/-- Run calls in order. -/
def run (r : Registry) : List Call → Registry × List Reply
  | [] => (r, [])
  | c :: cs =>
    let (next, reply) := call r c
    let (last, replies) := run next cs
    (last, reply :: replies)

/-! ## calls that go through -/

theorem decodeCounted_eq (buf : List UInt8) :
    decodeCounted buf = lift (NdArray.decode buf) := by
  rw [decodeCounted, decode_eq]
  cases ha : NdArray.decode buf with
  | error e => rfl
  | ok a =>
      rw [lift_ok, ok_bind, size_eq (NdArray.wellFormed_of_decode ha)]
      rfl

theorem readValues_eq {a : NdArray} (ha : a.WellFormed) :
    readValues a = lift (Registry.readValues a) := by
  unfold readValues Registry.readValues
  refine bind_eq_lift rfl fun layout hlayout => ?_
  obtain ⟨k, -, rfl⟩ := Tag.layout_eq_ok_iff.mp (mapError_eq_ok_iff.mp hlayout)
  have hlen := k.len_layout_le
  rw [toScalars_eq ha (by omega), rethrow_lift]
  refine bind_eq_lift rfl fun elems _ => ?_
  rw [mapM_eq_lift fun x => widen_eq x a.tag, rethrow_lift]

theorem readReply_eq {a : NdArray} (ha : a.WellFormed) (cap : Nat) (buf : Bool) :
    readReply cap buf a = .ok (Registry.readReply cap buf a) := by
  rw [readReply, size_eq ha, ok_bind, readValues_eq ha, attempt_lift, Registry.readReply]
  split
  · rfl
  · cases Registry.readValues a with
    | error s => rfl
    | ok xs =>
        simp only [ok_bind]
        split <;> rfl

theorem encodeReply_eq {a : NdArray} (ha : a.WellFormed) (cap : Nat) (buf : Bool) :
    encodeReply cap buf a = .ok (Registry.encodeReply cap buf a) := by
  rw [encodeReply, encode_eq ha, attempt_lift, ok_bind, Registry.encodeReply]
  cases a.encode with
  | error e => rfl
  | ok bs =>
      simp only
      split
      · rfl
      · split <;> rfl

variable {r : Registry} (hr : r.Safe)

include hr

theorem publish_eq (a : NdArray) : publish r a = r.publish a := by
  rw [publish, insert_eq hr.inBounds, Registry.publish]
  rfl

theorem publishBuilt_eq {x : Run ArrayError NdArray} {built : Except ArrayError NdArray}
    (hx : x = lift built) : publishBuilt r x = r.publishBuilt built := by
  subst hx
  cases built with
  | error e => rfl
  | ok a => exact publish_eq hr a

theorem inquire_eq {answer : NdArray → Run Empty Reply} {answer' : NdArray → Reply}
    (h : ∀ a, a.WellFormed → answer a = .ok (answer' a)) (handle : UInt64) (out : Bool) :
    inquire r handle out answer = (r, r.inquire handle out answer') := by
  unfold inquire Registry.inquire
  split
  · rfl
  · cases hresolve : r.resolve handle with
    | error s => rfl
    | ok a =>
        simp only [h a (hr.obtained_of_resolve hresolve).wellFormed]
        rfl

theorem scale_eq (op : NumericOp) (handle : UInt64) (number : Double) (out : Bool) :
    scale r op handle number out =
      r.scale (fun a scalar => PackedArray.mapScalar a scalar op.combine) handle number out := by
  unfold scale Registry.scale
  split
  · rfl
  · cases hresolve : r.resolve handle with
    | error s => rfl
    | ok a =>
        have ha := (hr.obtained_of_resolve hresolve).wellFormed
        simp only
        cases hscalar : number.narrow a.tag with
        | error e => rfl
        | ok scalar =>
            -- a number that was narrowed to the tag passes the assertion on its storage
            have hlift : liftScalar (Except.ok scalar) = .ok scalar := rfl
            simp only [hlift, lift_ok, ok_bind,
              mapScalar_eq ha (combine_eq op) fun _ => Tag.storesLike_of_narrow hscalar]
            cases hmade : (PackedArray.mapScalar a scalar op.combine).result with
            | ok made => exact publish_eq hr made
            | error e =>
                have hrefusal : e.Refuses := mapScalar_refuses hscalar e hmade
                simp only [lift_error]
                rw [if_neg (Status.ne_panicked_of_isRefusal hrefusal)]

theorem dotReply_eq {a : NdArray} (ha : a.WellFormed) (right : UInt64) :
    dotReply r right a = .ok (match r.resolve right with
      | .error s => .of s
      | .ok b =>
        match (PackedArray.dotProduct a b).result with
        | .ok v => { status := .ok, number := some v }
        | .error e => .of e.status) := by
  unfold dotReply
  cases hresolve : r.resolve right with
  | error s => rfl
  | ok b =>
      have hb := (hr.obtained_of_resolve hresolve).wellFormed
      simp only [dotProduct_eq ha hb, attempt_lift, ok_bind]
      cases (PackedArray.dotProduct a b).result <;> rfl

/-- **A call** never breaks off. -/
theorem call_eq (c : Call) : call r c = r.call c := by
  cases c with
  | create values out =>
      simp only [call, create, Registry.call, Registry.create]
      split
      · rfl
      · cases values.borrow with
        | none => rfl
        | some xs =>
            simp only
            split
            · rfl
            · exact publishBuilt_eq hr (ofElements_eq (fun x _ => packable .float8 x) _ _ _ _)
  | createShaped values nulls dims lbounds out =>
      simp only [call, createShaped, Registry.call, Registry.createShaped]
      split
      · rfl
      · cases values.borrow with
        | none => rfl
        | some xs =>
            cases dims.borrow with
            | none => rfl
            | some extents =>
                exact publishBuilt_eq hr (ofElements_eq (fun x _ => packable .float8 x) _ _ _ _)
  | decode bytes out =>
      simp only [call, decodeCall, Registry.call, Registry.decode]
      split
      · rfl
      · cases bytes.borrow with
        | none => rfl
        | some buf => exact publishBuilt_eq hr (decodeCounted_eq buf)
  | destroy h => rfl
  | ndim h out => exact inquire_eq hr (fun a _ => rfl) h out
  | itemCount h out =>
      exact inquire_eq hr (fun a ha => by rw [countReply, size_eq ha]; rfl) h out
  | read h cap buf out => exact inquire_eq hr (fun a ha => readReply_eq ha cap buf) h out
  | encode h cap buf out => exact inquire_eq hr (fun a ha => encodeReply_eq ha cap buf) h out
  | dot left right out => exact inquire_eq hr (fun a ha => dotReply_eq hr ha right) left out
  | scalarMult h factor out => exact scale_eq hr .mult h factor out
  | scalarDiv h divisor out => exact scale_eq hr .div h divisor out

/-- Runs of calls never break off. -/
theorem run_eq (calls : List Call) : run r calls = r.run calls := by
  induction calls generalizing r with
  | nil => rfl
  | cons c calls ih =>
      rw [run, Registry.run, call_eq hr c]
      simp only
      rw [ih (hr.call c)]

omit hr

/-- **Foreign calls never break off**: any calls from the start come to what the
library's own come to, leave the registry open, and none replies that it or an earlier
one broke off. -/
theorem run_unbroken (calls : List Call) :
    run .empty calls = Registry.empty.run calls ∧ (run .empty calls).1.isSealed = false ∧
      ∀ reply ∈ (run .empty calls).2,
        reply.status ≠ .panicked ∧ reply.status ≠ .internalError := by
  rw [run_eq Registry.safe_empty]
  refine ⟨rfl, Registry.isSealed_run rfl calls, fun reply hmem => ?_⟩
  obtain hok | hrefusal := Registry.ok_or_isRefusal_of_mem_run rfl hmem
  · simp [hok]
  · exact ⟨Status.ne_panicked_of_isRefusal hrefusal, Status.ne_internalError_of_isRefusal hrefusal⟩

end Machine

end PackedArray
