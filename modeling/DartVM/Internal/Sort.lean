import DartVM.Fault

namespace dart.internal
variable {E : Type}

/-- `_INSERTION_SORT_THRESHOLD`. -/
def insertion_sort_threshold : Int := 32

/-- `a[i]`. The index is checked against the range that is to be sorted, not only against the list. -/
def read (first last : Int) (a : List E) (i : Int) : Checked E :=
  if first ≤ i ∧ i ≤ last ∧ 0 ≤ i then
    match a[i.toNat]? with
    | some x => .ok x
    | none => .error .out_of_bounds
  else .error .out_of_bounds

/-- `a[i] = x`. -/
def write (first last : Int) (a : List E) (i : Int) (x : E) : Checked (List E) :=
  if first ≤ i ∧ i ≤ last ∧ 0 ≤ i ∧ i < a.length then .ok (a.set i.toNat x) else .error .out_of_bounds

section
variable (compare : E → E → Int) (first last left right : Int)

/-- The inner loop of `_insertionSort`, which moves larger elements up. -/
def shift_up (el : E) : Nat → List E → Int → Checked (List E × Int)
  | 0, _, _ => .error .out_of_fuel
  | fuel + 1, a, j =>
    if j > left then do
      let x ← read first last a (j - 1)
      if compare x el > 0 then
        let a ← write first last a j x
        shift_up el fuel a (j - 1)
      else .ok (a, j)
    else .ok (a, j)

/-- The outer loop of `_insertionSort`. -/
def insert_from : Nat → List E → Int → Checked (List E)
  | 0, _, _ => .error .out_of_fuel
  | fuel + 1, a, i =>
    if i ≤ right then do
      let el ← read first last a i
      let (a, j) ← shift_up compare first last left el ((i - left).toNat + 1) a i
      let a ← write first last a j el
      insert_from fuel a (i + 1)
    else .ok a

def insertion_sort (a : List E) : Checked (List E) :=
  insert_from compare first last left right ((right - left).toNat + 1) a (left + 1)

variable (first last : Int)

/-- Two elements in order. -/
def order (x y : E) : E × E := if compare x y > 0 then (y, x) else (x, y)

/-- The sorting network for five elements. -/
def sort_five (el1 el2 el3 el4 el5 : E) : E × E × E × E × E :=
  let (el1, el2) := order compare el1 el2
  let (el4, el5) := order compare el4 el5
  let (el1, el3) := order compare el1 el3
  let (el2, el3) := order compare el2 el3
  let (el1, el4) := order compare el1 el4
  let (el3, el4) := order compare el3 el4
  let (el2, el5) := order compare el2 el5
  let (el2, el3) := order compare el2 el3
  let (el4, el5) := order compare el4 el5
  (el1, el2, el3, el4, el5)

/-- Puts the element at `k` below `less`. -/
def put_low (a : List E) (k less : Int) (ak : E) : Checked (List E) :=
  if k ≠ less then do
    let x ← read first last a less
    let a ← write first last a k x
    write first last a less ak
  else .ok a

/-- Puts the element at `k` above `great`, and the one that was there at `k`, or below `less` in a triple exchange. -/
def put_high (triple : Bool) (a : List E) (k less great : Int) (ak : E) : Checked (List E × Int × Int) :=
  if triple then do
    let x ← read first last a less
    let a ← write first last a k x
    let y ← read first last a great
    let a ← write first last a less y
    let a ← write first last a great ak
    .ok (a, less + 1, great - 1)
  else do
    let y ← read first last a great
    let a ← write first last a k y
    let a ← write first last a great ak
    .ok (a, less, great - 1)

/-- The search for an element that is not larger than the pivot, with its comparison. -/
def skip_greater (pivot : E) (a : List E) : Nat → Int → Checked (Int × Int)
  | 0, _ => .error .out_of_fuel
  | fuel + 1, great => do
    let x ← read first last a great
    if compare x pivot > 0 then skip_greater pivot a fuel (great - 1) else .ok (great, compare x pivot)

/-- The partitioning by one pivot. -/
def partition_equal (pivot : E) : Nat → List E → Int → Int → Int → Checked (List E × Int × Int)
  | 0, _, _, _, _ => .error .out_of_fuel
  | fuel + 1, a, k, less, great =>
    if k ≤ great then do
      let ak ← read first last a k
      if compare ak pivot = 0 then partition_equal pivot fuel a (k + 1) less great
      else if compare ak pivot < 0 then
        let a ← put_low first last a k less ak
        partition_equal pivot fuel a (k + 1) (less + 1) great
      else
        let (great, comp) ← skip_greater compare first last pivot a ((great - first).toNat + 1) great
        let (a, less, great) ← put_high first last (comp < 0) a k less great ak
        partition_equal pivot fuel a (k + 1) less great
    else .ok (a, less, great)

/-- The search for an element that does not belong to the third part, down to `k`. -/
def skip_high (high : Int → Bool) (pivot2 : E) (a : List E) (k : Int) : Nat → Int → Checked (Int × Bool)
  | 0, _ => .error .out_of_fuel
  | fuel + 1, great => do
    let x ← read first last a great
    if high (compare x pivot2) then
      if great - 1 < k then .ok (great - 1, false) else skip_high high pivot2 a k fuel (great - 1)
    else .ok (great, true)

/-- The partitioning by two pivots, with the tests for the first and the third part. -/
def partition (low high : Int → Bool) (pivot1 pivot2 : E) :
    Nat → List E → Int → Int → Int → Checked (List E × Int × Int)
  | 0, _, _, _, _ => .error .out_of_fuel
  | fuel + 1, a, k, less, great =>
    if k ≤ great then do
      let ak ← read first last a k
      if low (compare ak pivot1) then
        let a ← put_low first last a k less ak
        partition low high pivot1 pivot2 fuel a (k + 1) (less + 1) great
      else if high (compare ak pivot2) then
        let (great, found) ← skip_high compare first last high pivot2 a k ((great - first).toNat + 1) great
        if found then
          let x ← read first last a great
          let (a, less, great) ← put_high first last (compare x pivot1 < 0) a k less great ak
          partition low high pivot1 pivot2 fuel a (k + 1) less great
        else partition low high pivot1 pivot2 fuel a (k + 1) less great
      else partition low high pivot1 pivot2 fuel a (k + 1) less great
    else .ok (a, less, great)

/-- The index from which on, in a direction, an element is not equal to a pivot. -/
def skip_equal (pivot : E) (a : List E) (direction : Int) : Nat → Int → Checked Int
  | 0, _ => .error .out_of_fuel
  | fuel + 1, i => do
    let x ← read first last a i
    if compare x pivot = 0 then skip_equal pivot a direction fuel (i + direction) else .ok i

end

variable (compare : E → E → Int) (first last left right : Int)

def sixth : Int := (right - left + 1) / 6

def index1 : Int := left + sixth left right

def index5 : Int := right - sixth left right

/-- The midpoint. -/
def index3 : Int := (left + right) / 2

def index2 : Int := index3 left right - sixth left right

def index4 : Int := index3 left right + sixth left right

/-- Computes the two pivots by looking at five elements. The pivots are saved and the first and the last element put in
their places. -/
def choose_pivots (a : List E) : Checked (List E × E × E) := do
  let el1 ← read first last a (index1 left right)
  let el2 ← read first last a (index2 left right)
  let el3 ← read first last a (index3 left right)
  let el4 ← read first last a (index4 left right)
  let el5 ← read first last a (index5 left right)
  let (el1, pivot1, el3, pivot2, el5) := sort_five compare el1 el2 el3 el4 el5
  let a ← write first last a (index1 left right) el1
  let a ← write first last a (index3 left right) el3
  let a ← write first last a (index5 left right) el5
  let x ← read first last a left
  let a ← write first last a (index2 left right) x
  let y ← read first last a right
  let a ← write first last a (index4 left right) y
  .ok (a, pivot1, pivot2)

section
variable (pivot1 pivot2 : E)

/-- The partitioning of what is between the first and the last element. -/
def partition_by_pivots (a : List E) : Checked (List E × Int × Int) :=
  let fuel := (right - left).toNat + 1
  if compare pivot1 pivot2 = 0 then
    partition_equal compare first last pivot1 fuel a (left + 1) (left + 1) (right - 1)
  else partition compare first last (· < 0) (· > 0) pivot1 pivot2 fuel a (left + 1) (left + 1) (right - 1)

/-- Moves the pivots into their final positions. -/
def place_pivots (a : List E) (less great : Int) : Checked (List E) := do
  let x ← read first last a (less - 1)
  let a ← write first last a left x
  let a ← write first last a (less - 1) pivot1
  let y ← read first last a (great + 1)
  let a ← write first last a right y
  write first last a (great + 1) pivot2

/-- Removes the pivot elements from the second partition if it is too large. -/
def shrink_middle (a : List E) (less great : Int) : Checked (List E × Int × Int) :=
  if less < index1 left right ∧ great > index5 left right then do
    let fuel := (right - left).toNat + 1
    let less ← skip_equal compare first last pivot1 a 1 fuel less
    let great ← skip_equal compare first last pivot2 a (-1) fuel great
    partition compare first last (· = 0) (· = 0) pivot1 pivot2 fuel a less less great
  else .ok (a, less, great)

end

/-- `_dualPivotQuicksort`, with the call of `_doSort` as an argument. -/
def dual_pivot_quicksort (do_sort : List E → Int → Int → Checked (List E)) (a : List E) : Checked (List E) := do
  check (right - left > insertion_sort_threshold)
  let (a, pivot1, pivot2) ← choose_pivots compare first last left right a
  let (a, less, great) ← partition_by_pivots compare first last left right pivot1 pivot2 a
  let a ← place_pivots first last left right pivot1 pivot2 a less great
  let a ← do_sort a left (less - 2)
  let a ← do_sort a (great + 2) right
  if compare pivot1 pivot2 = 0 then .ok a
  else
    let (a, less, great) ← shrink_middle compare first last left right pivot1 pivot2 a less great
    do_sort a less great

/-- `_doSort`. -/
def do_sort : Nat → List E → Int → Int → Checked (List E)
  | 0, _, _, _ => .error .out_of_fuel
  | fuel + 1, a, left, right =>
    if right - left ≤ insertion_sort_threshold then insertion_sort compare first last left right a
    else dual_pivot_quicksort compare first last left right (do_sort fuel) a

/-- `Sort.sortRange`, which returns nothing when it throws "OutOfRange". -/
def sort_range (a : List E) (from_index to_index : Int) : Checked (Option (List E)) :=
  if from_index < 0 ∨ to_index > a.length ∨ to_index < from_index then .ok none
  else do
    let a ← do_sort compare from_index (to_index - 1) ((to_index - from_index).toNat + 1) a from_index (to_index - 1)
    .ok (some a)

end dart.internal
