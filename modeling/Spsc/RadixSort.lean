import Spsc.CValues

/-! The array operations of `radix_sort.c`. An array of `size` ints is a list of
that length, so the `size` argument is the list's length. -/
namespace Spsc.RadixSort
open Imperative

def findLargestNum (array : List Int) : Int :=
  array.foldl (fun largestNum x => if x > largestNum then x else largestNum) (-1)

/-- `(x / significantDigit) % 10`, both truncating as in C. -/
def digit (significantDigit x : Int) : Int := (x.tdiv significantDigit).tmod 10

def countDigits (significantDigit : Int) (array : List Int) : C (List Int) :=
  forLoop (fun i bucket => do
    let x ← load .bounds array i
    let n ← load .bounds bucket (digit significantDigit x)
    store .bounds bucket (digit significantDigit x) (n+1)) 0 array.length (List.replicate 10 0)

def accumulate (bucket : List Int) : C (List Int) :=
  forLoop (fun i bucket => do
    let here ← load .bounds bucket i
    let before ← load .bounds bucket ((i : Int)-1)
    store .bounds bucket i (here+before)) 1 9 bucket

/-- The backwards fill of `semiSorted`; a slot not yet written is `none`. -/
def fill (significantDigit : Int) (array bucket : List Int) :
    C (List Int × List (Option Int)) :=
  forLoop (fun t (bucket,semiSorted) => do
    let x ← load .bounds array ((array.length : Int)-1-t)
    let n ← load .bounds bucket (digit significantDigit x)
    let bucket ← store .bounds bucket (digit significantDigit x) (n-1)
    let semiSorted ← store .bounds semiSorted (n-1) (some x)
    .ok (bucket,semiSorted)) 0 array.length (bucket,List.replicate array.length none)

def copyBack (semiSorted : List (Option Int)) (array : List Int) : C (List Int) :=
  forLoop (fun i array => do
    match ← load .bounds semiSorted i with
    | some x => store .bounds array i x
    | none => .error .bounds) 0 array.length array

def sortDigit (significantDigit : Int) (array : List Int) : C (List Int) := do
  if significantDigit = 0 then .error .divide else
  let bucket ← countDigits significantDigit array
  let bucket ← accumulate bucket
  let (_,semiSorted) ← fill significantDigit array bucket
  copyBack semiSorted array

/-- The outer loop, stopped with `spin` when it has made all of `turns` tests. -/
def sortLoop (largestNum : Int) : Nat → Int → List Int → C (List Int)
  | 0, _, _ => .error .spin
  | turns+1, significantDigit, array =>
    if largestNum.tdiv significantDigit > 0 then do
      let array ← sortDigit significantDigit array
      sortLoop largestNum turns (wrap32 (significantDigit * 10)) array
    else .ok array

/-- Thirteen tests are enough for any int: the powers of ten up to `10^9`, then
three wrapped values, of which the last is negative. -/
def sortTurns : Nat := 13

def radixSort (array : List Int) : C (List Int) :=
  sortLoop (findLargestNum array) sortTurns 1 array

def reverse (array : List Int) : C (List Int) :=
  forLoop (fun i reversed => do
    let t ← load .bounds reversed i
    let u ← load .bounds reversed ((array.length : Int)-1-i)
    let reversed ← store .bounds reversed i u
    store .bounds reversed ((array.length : Int)-1-i) t) 0 (array.length/2) array

def shiftDown (array : List Int) (i : Nat) : C (List Int) :=
  forLoop (fun j array => do
    let x ← load .bounds array ((i : Int)+j)
    store .bounds array j x) 0 (array.length-i) array

def zeroTail (array : List Int) (j : Nat) : C (List Int) :=
  forLoop (fun j array => store .bounds array j 0) j (array.length-j) array

def moveArray (array : List Int) : C (List Int) := do
  let i := array.findIdx (fun x => x != 0)
  if i = 0 then .ok array else
  let array ← shiftDown array i
  zeroTail array (array.length-i)

def searchFrom (arr : List Int) (x : Int) : Nat → Nat → C Int
  | _, 0 => .ok (-1)
  | i, count+1 => do
    if (← load .bounds arr i) = x then .ok i else searchFrom arr x (i+1) count

/-- `BIN_SEARCH` is not defined in the build, so this is the linear scan; `l` is
not read. -/
def binarySearch (arr : List Int) (_l r x : Int) : C Int := searchFrom arr x 0 r.toNat

/-- What `test_helper` leaves in its list. -/
def testHelper (list : List Int) : C (List Int) := do
  let list ← radixSort list
  reverse list

example : (do moveArray (← radixSort [10,2,303,4021,0,293,1,0])) =
    .ok [1,2,10,293,303,4021,0,0] := by rfl

end Spsc.RadixSort
