import Mathlib.Data.Int.ModEq
import DartVM.BigInt.DivRem

namespace dart.bigint
open BigIntImpl Int List

/-- A `_BigIntImpl` in memory: its digit array is known by its identity. -/
structure Object where
  is_negative : Bool
  array : Nat
  used : Nat
deriving DecidableEq

/-- The result cache for the last `_divRem` call: the identities of the digit arrays of the
operands, the numbers of digits used, and the result. -/
structure DivCache where
  last_dividend_digits : Nat
  last_dividend_used : Nat
  last_divisor_digits : Nat
  last_divisor_used : Nat
  last_quo_rem : QuoRem

/-- A program that computes with big integers. Digit arrays are never modified once an object
refers to them. The first one belongs to `_BigIntImpl.zero`. -/
structure Session where
  arrays : List Uint32List
  objects : List Object
  cache : Option DivCache

namespace Session

/-- The object `_BigIntImpl.zero`. -/
def zero : Object := ⟨false, 0, 0⟩

def initial : Session := ⟨[BigIntImpl.zero.digits], [zero], none⟩

/-- The value of an object. -/
def int (s : Session) (x : Object) : BigIntImpl := ⟨x.is_negative, s.arrays.getD x.array [], x.used⟩

/-- A new object, with its own digit array. -/
def allocate (s : Session) (x : BigIntImpl) : Session × Object :=
  ({ s with arrays := s.arrays ++ [x.digits] }, ⟨x.is_negative, s.arrays.length, x.used⟩)

/-- The result of `_divRem`, if it is already cached. -/
def cached (s : Session) (x other : Object) : Option QuoRem :=
  match s.cache with
  | some c =>
    if x.used = c.last_dividend_used ∧ other.used = c.last_divisor_used ∧ x.array = c.last_dividend_digits ∧
        other.array = c.last_divisor_digits then
      some c.last_quo_rem
    else
      none
  | none => none

section
variable (p : Primitives)

section
variable (s : Session)

section
variable (x other : Object)

/-- `_divRem`. -/
def div_rem : Checked (Session × QuoRem) :=
  match s.cached x other with
  | some r => .ok (s, r)
  | none => do
    let r ← compute_div_rem p (s.int x).digits x.used (s.int other).digits other.used
    return ({ s with cache := some ⟨x.array, x.used, other.array, other.used, r⟩ }, r)

/-- `operator ~/`. -/
def truncating_div : Checked (Session × Object) :=
  if other.used = 0 then .error .overflow
  else if x.used < other.used then .ok (s, zero)
  else do
    let (s, r) ← s.div_rem p x other
    return s.allocate (← quotient_of (s.int x) (s.int other) r)

def remainder : Checked (Session × Object) :=
  if other.used = 0 then .error .overflow
  else if x.used < other.used then .ok (s, x)
  else do
    let (s, r) ← s.div_rem p x other
    let rem ← make false r.rem_used (← clone_digits r.digits 0 r.rem_used r.rem_used)
    -- `operator >>` returns the shared zero when it leaves no digit of a positive number.
    if 0 < r.rem_nsh ∧ 0 < rem.used ∧ rem.used ≤ r.rem_nsh / digit_bits then return (s, zero)
    else return s.allocate (← remainder_of.finish (s.int x) rem r.rem_nsh)

/-- `operator %`. -/
def modulo : Checked (Session × Object) := do
  let (s, result) ← s.remainder p x other
  if result.is_negative then
    return s.allocate (← euclidean_of (s.int other) (s.int result))
  else
    return (s, result)

end

/-- `operator -()`: the digit array is shared. -/
def neg (s : Session) (x : Object) : Checked (Session × Object) := do
  let r ← BigIntImpl.neg (s.int x)
  return (s, ⟨r.is_negative, x.array, r.used⟩)

/-- What a program does with its objects. Any operation that neither divides nor shares digit
arrays is an `other`, with an arbitrary result. -/
inductive Operation where
  | truncating_div (x other : Nat)
  | remainder (x other : Nat)
  | modulo (x other : Nat)
  | neg (x : Nat)
  | other (result : BigIntImpl)

/-- The operands are objects of the program. -/
def operand {α : Type} (objects : List α) (i : Nat) : Checked α :=
  match objects[i]? with
  | some x => .ok x
  | none => .error .out_of_bounds

def perform : Operation → Checked (Session × Object)
  | .truncating_div x other => do s.truncating_div p (← operand s.objects x) (← operand s.objects other)
  | .remainder x other => do s.remainder p (← operand s.objects x) (← operand s.objects other)
  | .modulo x other => do s.modulo p (← operand s.objects x) (← operand s.objects other)
  | .neg x => do s.neg (← operand s.objects x)
  | .other result => .ok (s.allocate result)

end

/-- The results of a sequence of operations. Each result is an object for the operations after
it; an operation that throws has none. -/
def run (p : Primitives) : Session → List Operation → List (Checked BigIntImpl)
  | _, [] => []
  | s, op :: ops =>
    match s.perform p op with
    | .ok (s, x) => .ok (s.int x) :: run p { s with objects := s.objects ++ [x] } ops
    | .error e => .error e :: run p s ops

/-- An operation with the cache disabled: every division is computed. -/
def perform_uncached (objects : List BigIntImpl) : Operation → Checked BigIntImpl
  | .truncating_div x other => do (← operand objects x).truncating_div p (← operand objects other)
  | .remainder x other => do (← operand objects x).remainder p (← operand objects other)
  | .modulo x other => do (← operand objects x).modulo p (← operand objects other)
  | .neg x => do (← operand objects x).neg
  | .other result => .ok result

end

/-- A sequence of operations with the cache disabled. -/
def run_uncached (p : Primitives) : List BigIntImpl → List Operation → List (Checked BigIntImpl)
  | _, [] => []
  | objects, op :: ops =>
    match perform_uncached p objects op with
    | .ok x => .ok x :: run_uncached p (objects ++ [x]) ops
    | .error e => .error e :: run_uncached p objects ops

/-- The object's digit array exists. -/
def Holds (s : Session) (x : Object) : Prop := x.array < s.arrays.length

/-- What the cache relies on: its entry is the result for the arrays it names. -/
structure Coherent (p : Primitives) (s : Session) : Prop where
  zero : s.Holds Session.zero ∧ s.int Session.zero = BigIntImpl.zero
  objects : ∀ x ∈ s.objects, s.Holds x
  dividend : ∀ c ∈ s.cache, c.last_dividend_digits < s.arrays.length
  divisor : ∀ c ∈ s.cache, c.last_divisor_digits < s.arrays.length
  result : ∀ c ∈ s.cache, compute_div_rem p (s.arrays.getD c.last_dividend_digits []) c.last_dividend_used
    (s.arrays.getD c.last_divisor_digits []) c.last_divisor_used = .ok c.last_quo_rem

/-- The digit arrays are still there, and no object was added yet. -/
structure Extends (s s' : Session) : Prop where
  arrays : ∀ x, s.Holds x → s'.Holds x ∧ s'.int x = s.int x
  objects : s'.objects = s.objects

variable {p : Primitives} {s s' s'' : Session} {x y : Object}

lemma Extends.refl (s : Session) : s.Extends s := ⟨fun _ hx => ⟨hx, rfl⟩, rfl⟩

lemma Extends.trans (h : s.Extends s') (h' : s'.Extends s'') : s.Extends s'' := by
  refine ⟨fun x hx => ?_, h'.objects.trans h.objects⟩
  obtain ⟨hx', heq⟩ := h.arrays x hx
  obtain ⟨hx'', heq'⟩ := h'.arrays x hx'
  exact ⟨hx'', heq'.trans heq⟩

lemma coherent_initial : initial.Coherent p where
  zero := ⟨Nat.zero_lt_one, rfl⟩
  objects := by
    intro x hx
    rw [mem_singleton.mp hx]
    exact Nat.zero_lt_one
  dividend := by rintro c ⟨⟩
  divisor := by rintro c ⟨⟩
  result := by rintro c ⟨⟩

/-- The computation with the cache from `s` on and the one without fail in the same way, or have
related results. -/
inductive Agree (p : Primitives) (s : Session) {α β : Type} (R : Session → α → β → Prop) :
    Checked (Session × α) → Checked β → Prop
  | error (e : Fault) : Agree p s R (.error e) (.error e)
  | ok (s' : Session) (a : α) (b : β) (hs : s'.Coherent p) (hext : s.Extends s') (hR : R s' a b) :
    Agree p s R (.ok (s', a)) (.ok b)

/-- An object and its value. -/
def Denotes (s : Session) (x : Object) (z : BigIntImpl) : Prop := s.Holds x ∧ s.int x = z

section
variable {α β γ δ : Type} {R : Session → α → β → Prop} {Q : Session → γ → δ → Prop}

lemma Agree.bind {a : Checked (Session × α)} {b : Checked β} {f : Session × α → Checked (Session × γ)}
    {g : β → Checked δ} (h : Agree p s R a b)
    (hstep : ∀ s' a b, s'.Coherent p → s.Extends s' → R s' a b → Agree p s' Q (f (s', a)) (g b)) :
    Agree p s Q (a >>= f) (b >>= g) := by
  cases h with
  | error e => exact .error e
  | ok s' a b hs hext hR =>
    have h := hstep s' a b hs hext hR
    show Agree p s Q (f (s', a)) (g b)
    generalize f (s', a) = a at h ⊢
    generalize g b = b at h ⊢
    cases h with
    | error e => exact .error e
    | ok s'' a b hs' hext' hR => exact .ok s'' a b hs' (hext.trans hext') hR

/-- A computation that does not use the cache. -/
lemma Agree.bind_same {a : Checked α} {f : α → Checked (Session × γ)} {g : α → Checked δ}
    (hstep : ∀ r, a = .ok r → Agree p s Q (f r) (g r)) : Agree p s Q (a >>= f) (a >>= g) := by
  cases a with
  | error e => exact .error e
  | ok r => exact hstep r rfl

lemma Agree.ite {c : Prop} [Decidable c] {a a' : Checked (Session × α)} {b b' : Checked β}
    (hpos : c → Agree p s R a b) (hneg : ¬c → Agree p s R a' b') :
    Agree p s R (if c then a else a') (if c then b else b') := by
  by_cases hc : c
  · rw [if_pos hc, if_pos hc]
    exact hpos hc
  · rw [if_neg hc, if_neg hc]
    exact hneg hc

variable (hs : s.Coherent p)
include hs

/-- A new array changes none of those before it. -/
lemma Agree.allocate (z : BigIntImpl) : Agree p s Denotes (.ok (s.allocate z)) (.ok z) := by
  have hlen : (s.arrays ++ [z.digits]).length = s.arrays.length + 1 := length_append
  have hsame {a : Nat} (h : a < s.arrays.length) : (s.arrays ++ [z.digits]).getD a [] = s.arrays.getD a [] :=
    getD_append _ _ _ _ h
  have hint (x : Object) (hx : s.Holds x) : (s.allocate z).1.Holds x ∧ (s.allocate z).1.int x = s.int x := by
    refine ⟨?_, by simp only [int, Session.allocate, hsame hx]⟩
    simp only [Holds, Session.allocate, hlen]
    exact Nat.lt_succ_of_lt hx
  refine .ok (s.allocate z).1 (s.allocate z).2 z ⟨?_, ?_, ?_, ?_, ?_⟩ ⟨hint, rfl⟩ ⟨?_, ?_⟩
  · obtain ⟨h0, heq⟩ := hint Session.zero hs.zero.1
    exact ⟨h0, heq.trans hs.zero.2⟩
  · exact fun x hx => (hint x (hs.objects x hx)).1
  · intro c hc
    rw [Session.allocate, hlen]
    exact Nat.lt_succ_of_lt (hs.dividend c hc)
  · intro c hc
    rw [Session.allocate, hlen]
    exact Nat.lt_succ_of_lt (hs.divisor c hc)
  · intro c hc
    simp only [Session.allocate]
    rw [hsame (hs.dividend c hc), hsame (hs.divisor c hc)]
    exact hs.result c hc
  · simp only [Holds, Session.allocate, hlen]
    exact Nat.lt_succ_self _
  · simp [int, Session.allocate]

open Agree

lemma Agree.bind_allocate (a : Checked BigIntImpl) : Agree p s Denotes (a >>= fun z => pure (s.allocate z)) a := by
  cases a with
  | error e => exact .error e
  | ok z => exact allocate hs z

/-- The identities of the arrays and the numbers of digits determine the result. -/
lemma Coherent.cached_eq {r : QuoRem} (h : s.cached x y = some r) :
    compute_div_rem p (s.int x).digits x.used (s.int y).digits y.used = .ok r := by
  unfold cached at h
  cases hcache : s.cache with
  | none =>
    rw [hcache] at h
    cases h
  | some c =>
    rw [hcache] at h
    dsimp only at h
    split at h
    · rename_i hhit
      obtain ⟨hxused, hyused, hx, hy⟩ := hhit
      cases h
      rw [int, int, hx, hy, hxused, hyused]
      exact hs.result c hcache
    · cases h

/-- Cached or not, `_divRem` has the result that it computes. -/
lemma Agree.div_rem (hx : s.Holds x) (hy : s.Holds y) : Agree p s (fun _ r r' => r = r') (s.div_rem p x y)
      (compute_div_rem p (s.int x).digits x.used (s.int y).digits y.used) := by
  cases hcached : s.cached x y with
  | some r =>
    have hrun : s.div_rem p x y = .ok (s, r) := by rw [Session.div_rem, hcached]
    rw [hs.cached_eq hcached, hrun]
    exact .ok s r r hs (.refl s) rfl
  | none =>
    have hrun : s.div_rem p x y = compute_div_rem p (s.int x).digits x.used (s.int y).digits y.used >>= fun r =>
        .ok ({ s with cache := some ⟨x.array, x.used, y.array, y.used, r⟩ }, r) := by
      rw [Session.div_rem, hcached]
      rfl
    rw [hrun]
    nth_rewrite 2 [← bind_ok_right (compute_div_rem p ..)]
    refine bind_same fun r hr => ?_
    refine .ok { s with cache := some ⟨x.array, x.used, y.array, y.used, r⟩ } r r ⟨hs.zero, hs.objects, ?_, ?_, ?_⟩
      ⟨fun _ hx => ⟨hx, rfl⟩, rfl⟩ rfl
    · rintro c ⟨⟩
      exact hx
    · rintro c ⟨⟩
      exact hy
    · rintro c ⟨⟩
      exact hr

lemma Agree.truncating_div (hx : s.Holds x) (hy : s.Holds y) :
    Agree p s Denotes (s.truncating_div p x y) ((s.int x).truncating_div p (s.int y)) := by
  refine ite (fun _ => .error _) fun _ => ite (fun _ => ?_) fun _ => ?_
  · exact .ok s zero _ hs (.refl s) hs.zero
  · refine (div_rem hs hx hy).bind fun s1 r r' hs1 hext hr => ?_
    obtain rfl := hr
    exact bind_allocate hs1 _

end

/-- Shifting out every digit of a positive number gives the shared zero. -/
lemma finish_eq_zero {x rem : BigIntImpl} {nsh : Nat} (hsign : rem.is_negative = false)
    (h : 0 < nsh ∧ 0 < rem.used ∧ rem.used ≤ nsh / digit_bits) :
    remainder_of.finish x rem nsh = .ok BigIntImpl.zero := by
  obtain ⟨hnsh, hpos, hle⟩ := h
  have h0 : rem.is_zero = false := by
    rw [is_zero, beq_eq_false_iff_ne]
    omega
  have hshift : shift_right rem nsh = .ok BigIntImpl.zero := by
    simp [shift_right, dr_shift, h0, hsign, if_pos hle]
  rw [remainder_of.finish, remainder_of.denormalize, if_pos hnsh, hshift, ok_bind, if_neg]
  · rfl
  · rintro ⟨-, hused⟩
    exact absurd hused (lt_irrefl _)

/-- The constructor keeps the digits, and the sign unless the number is zero. -/
lemma make_eq_ok {t : Bool} {used : Nat} {digits : Uint32List} {z : BigIntImpl} (h : make t used digits = .ok z) :
    z.digits = digits ∧ z.is_negative = if z.used = 0 then false else t := by
  rw [make, bind_eq_ok_iff] at h
  obtain ⟨n, -, h⟩ := h
  rw [normalized, bind_eq_ok_iff] at h
  obtain ⟨-, -, h⟩ := h
  rw [bind_eq_ok_iff] at h
  obtain ⟨b, -, h⟩ := h
  rw [bind_eq_ok_iff] at h
  obtain ⟨-, -, h⟩ := h
  cases h
  exact ⟨rfl, rfl⟩

lemma Agree.remainder (hs : s.Coherent p) (hx : s.Holds x) (hy : s.Holds y) :
    Agree p s Denotes (s.remainder p x y) ((s.int x).remainder p (s.int y)) := by
  refine ite (fun _ => .error _) fun _ => ite (fun _ => ?_) fun _ => ?_
  · exact .ok s x _ hs (.refl s) ⟨hx, rfl⟩
  · refine (div_rem hs hx hy).bind fun s1 r r' hs1 hext hr => ?_
    obtain rfl := hr
    refine bind_same fun digits _ => bind_same fun rem hrem => ?_
    by_cases hshift : 0 < r.rem_nsh ∧ 0 < rem.used ∧ rem.used ≤ r.rem_nsh / digit_bits
    · rw [if_pos hshift, finish_eq_zero (by rw [(make_eq_ok hrem).2, ite_self]) hshift]
      exact .ok s1 zero _ hs1 (.refl s1) hs1.zero
    · rw [if_neg hshift]
      exact bind_allocate hs1 _

lemma Agree.modulo (hs : s.Coherent p) (hx : s.Holds x) (hy : s.Holds y) :
    Agree p s Denotes (s.modulo p x y) ((s.int x).modulo p (s.int y)) := by
  refine (remainder hs hx hy).bind fun s1 r z hs1 hext hr => ?_
  obtain ⟨hheld, rfl⟩ := hr
  dsimp only
  rw [(hext.arrays y hy).2]
  by_cases hneg : r.is_negative = true
  · rw [if_pos hneg]
    exact bind_allocate hs1 _
  · rw [if_neg hneg, show euclidean_of (s.int y) (s1.int r) = .ok (s1.int r) from if_neg hneg]
    exact .ok s1 r _ hs1 (.refl s1) ⟨hheld, rfl⟩

lemma neg_digits {x r : BigIntImpl} (h : BigIntImpl.neg x = .ok r) : r.digits = x.digits := by
  rw [BigIntImpl.neg] at h
  split at h
  · rw [Except.ok.inj h]
  · exact (make_eq_ok h).1

lemma Agree.neg (hs : s.Coherent p) (hx : s.Holds x) : Agree p s Denotes (s.neg x) (s.int x).neg := by
  cases hneg : (s.int x).neg with
  | error e =>
    rw [Session.neg, hneg]
    exact .error e
  | ok r =>
    rw [Session.neg, hneg]
    refine .ok s _ r hs (.refl s) ⟨hx, ?_⟩
    have hdigs : r.digits = s.arrays.getD x.array [] := neg_digits hneg
    rw [int, ← hdigs]

lemma Agree.operand {f : Object → Checked (Session × Object)} {g : BigIntImpl → Checked BigIntImpl}
    (hs : s.Coherent p) (i : Nat) (hstep : ∀ x, s.Holds x → Agree p s Denotes (f x) (g (s.int x))) :
    Agree p s Denotes (operand s.objects i >>= f) (operand (s.objects.map s.int) i >>= g) := by
  rw [Session.operand, Session.operand, getElem?_map]
  cases h : s.objects[i]? with
  | none => exact .error _
  | some x => exact hstep x (hs.objects x (mem_of_getElem? h))

/-- One operation gives the same result with the cache as without it. -/
lemma Agree.perform (hs : s.Coherent p) (op : Operation) :
    Agree p s Denotes (s.perform p op) (perform_uncached p (s.objects.map s.int) op) := by
  cases op with
  | truncating_div i j =>
    exact operand hs i fun x hx => operand hs j fun y hy => truncating_div hs hx hy
  | remainder i j => exact operand hs i fun x hx => operand hs j fun y hy => remainder hs hx hy
  | modulo i j => exact operand hs i fun x hx => operand hs j fun y hy => modulo hs hx hy
  | neg i => exact operand hs i fun x hx => neg hs hx
  | other result => exact allocate hs result

/-- A whole run gives the same results with the cache as without it. -/
lemma Coherent.run_eq (hs : s.Coherent p) (ops : List Operation) :
    s.run p ops = run_uncached p (s.objects.map s.int) ops := by
  induction ops generalizing s with
  | nil => rfl
  | cons op ops ih =>
    have hstep := Agree.perform hs op
    rw [run, run_uncached]
    generalize s.perform p op = a at hstep ⊢
    generalize perform_uncached p (s.objects.map s.int) op = b at hstep ⊢
    cases hstep with
    | error e => exact congrArg (Except.error e :: ·) (ih hs)
    | ok s1 x z hs1 hext hx =>
      obtain ⟨hheld, rfl⟩ := hx
      have hadd : Coherent p { s1 with objects := s1.objects ++ [x] } := by
        refine ⟨hs1.zero, fun y hy => ?_, hs1.dividend, hs1.divisor, hs1.result⟩
        obtain hy | hy := mem_append.mp hy
        · exact hs1.objects y hy
        · rw [mem_singleton.mp hy]
          exact hheld
      have hobjects : (s1.objects ++ [x]).map s1.int = s.objects.map s.int ++ [s1.int x] := by
        rw [map_append, hext.objects]
        exact congrArg (· ++ [s1.int x]) (map_congr_left fun y hy => (hext.arrays y (hs.objects y hy)).2)
      have hrest : run p { s1 with objects := s1.objects ++ [x] } ops =
          run_uncached p (s.objects.map s.int ++ [s1.int x]) ops := by
        rw [← hobjects]
        exact ih hadd
      exact congrArg (Except.ok (s1.int x) :: ·) hrest

end Session

namespace BigIntImpl

/-- The division law for all numbers. In every state of the long division, the next step ends with
digits of the quotient below the base. Every sequence of operations on objects that may share
their digit arrays has the same results with the cache as without it. -/
theorem division_law (p : Primitives) : (∀ x y : BigIntImpl, x.Valid → y.Valid → y.value ≠ 0 →
      ∃ q r m, truncating_div p x y = .ok q ∧ remainder p x y = .ok r ∧ modulo p x y = .ok m ∧
        q.Valid ∧ r.Valid ∧ m.Valid ∧ x.value = q.value * y.value + r.value ∧ |r.value| < |y.value| ∧
        (r.value = 0 ∨ r.value.sign = x.value.sign) ∧ 0 ≤ m.value ∧ m.value < |y.value| ∧
        m.value ≡ x.value [ZMOD |y.value|]) ∧
    (∀ (x y n l j q a : Nat) (ny : Uint32List) (s : Division), NormalizedDivisor y n ny → s.Sound y n l →
      Dividing x y n l j q a s.result_digits → p.width ≤ j → p.width ∣ j →
      ∃ s', division_step p n l ny s (n + j - 1) j = .ok (s', p.width) ∧ s'.Sound y n l ∧
        s'.result_digits.length = s.result_digits.length ∧ nextDigit y a (j - p.width) < digit_base ^ p.width ∧
        Dividing x y n l (j - p.width) (q * digit_base ^ p.width + nextDigit y a (j - p.width))
          (a % (y * digit_base ^ (j - p.width))) s'.result_digits) ∧
    (∀ ops : List Session.Operation, Session.initial.run p ops = Session.run_uncached p [zero] ops) := by
  refine ⟨?_, ?_, Session.coherent_initial.run_eq⟩
  · intro x y hx hy hne
    obtain ⟨q, hq, hqok, hqval⟩ := truncating_div_spec p hx hy hne
    obtain ⟨r, hr, hrok, hrval⟩ := remainder_spec p hx hy hne
    obtain ⟨m, hm, hmvalid, hmvalue⟩ := modulo_spec p hx hy hne
    refine ⟨q, r, m, hq, hr, hm, hqok, hrok, hmvalid, ?_, ?_, ?_, ?_, ?_, ?_⟩
    · rw [hqval, hrval, mul_comm]
      exact (mul_tdiv_add_tmod x.value y.value).symm
    · rw [hrval, abs_eq_natAbs, abs_eq_natAbs, natAbs_tmod]
      exact_mod_cast Nat.mod_lt _ (natAbs_pos.mpr hne)
    · rw [hrval]
      by_cases hdvd : y.value ∣ x.value
      · exact .inl (tmod_eq_zero_of_dvd hdvd)
      · exact .inr (by rw [sign_tmod, if_neg hdvd])
    · rw [hmvalue]
      exact emod_nonneg _ hne
    · rw [hmvalue]
      exact emod_lt_abs _ hne
    · rw [hmvalue, ModEq, emod_abs, emod_abs, emod_emod]
  · intro x y n l j q a ny s hy hs h hj hdvd
    obtain ⟨s', hstep, hs', hlen, -, hdig, h'⟩ := division_step_spec hy hs h hj hdvd
    exact ⟨s', hstep, hs', hlen, hdig, h'⟩

/-- `(2 ^ 32 + 5) ~/ -7`, and a step of a division by `2 ^ 63`. -/
theorem division_law_twoDigits : (∃ q r m, truncating_div .pure_dart ⟨false, [5, 1], 2⟩ ⟨true, [7, 0], 1⟩ = .ok q ∧
      remainder .pure_dart ⟨false, [5, 1], 2⟩ ⟨true, [7, 0], 1⟩ = .ok r ∧
      modulo .pure_dart ⟨false, [5, 1], 2⟩ ⟨true, [7, 0], 1⟩ = .ok m ∧ q.value * -7 + r.value = 2 ^ 32 + 5) ∧
    ∃ s', division_step .pure_dart 2 4 [0, 2147483648] ⟨[0, 2147483648, 0, 0], [0, 0, 0, 0], [0, 0, 0, 0]⟩ 2 1 =
      .ok (s', 1) := by
  obtain ⟨hlaw, hstep, -⟩ := division_law .pure_dart
  obtain ⟨q, r, m, hq, hr, hm, -, -, -, hval, -⟩ := hlaw ⟨false, [5, 1], 2⟩ ⟨true, [7, 0], 1⟩
    ⟨⟨by decide, by decide, by decide⟩, by decide, by decide⟩ ⟨⟨by decide, by decide, by decide⟩, by decide, by decide⟩
    (by decide)
  obtain ⟨s', hs', -⟩ := hstep 0 (2 ^ 63) 2 4 1 0 0 [0, 2147483648]
    ⟨[0, 2147483648, 0, 0], [0, 0, 0, 0], [0, 0, 0, 0]⟩
    ⟨by decide, by decide, by decide, by decide, by decide, by decide⟩
    ⟨⟨by decide, by decide⟩, by decide, by decide, by decide, by decide⟩
    ⟨by decide, by decide, by decide, by decide, by decide⟩ (by decide) (by decide)
  exact ⟨⟨q, r, m, hq, hr, hm, hval.symm⟩, s', hs'⟩

end BigIntImpl
end dart.bigint
