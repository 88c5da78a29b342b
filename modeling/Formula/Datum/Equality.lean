import Formula.Datum

/-! # Equality of data

Data are equal if they are built alike from equal parts.  Numbers of both kinds
and truth values, which count as one and zero, are equal if they stand for the
same number.  What is no number is not even equal to itself, unless it is part of
another datum, which is always equal to itself.
-/
namespace Formula
namespace Datum

/-! ## Numbers -/

/-- A whole number and the power of two that it counts, for a datum that stands
for a finite number. -/
def dyadic? : Datum → Option (Int × Int)
  | bool b => some (if b then 1 else 0, 0)
  | int n => some (n, 0)
  | float (.finite negative m q) => some (if negative then -m else m, q)
  | _ => none

/-- Whether two whole numbers, each with the power of two that it counts, stand
for the same number. -/
def sameDyadic : Int × Int → Int × Int → Bool
  | (m, q), (n, r) => m <<< (q - r).toNat == n <<< (r - q).toNat

/-- Whether two data stand for the same number. -/
def sameNumber : Datum → Datum → Bool
  | float (.infinite negative), float (.infinite negative') => negative == negative'
  | a, b =>
    match a.dyadic?, b.dyadic? with
    | some x, some y => sameDyadic x y
    | _, _ => false

/-! ## Parts -/

mutual

/-- A datum in which every part that is made of expressions throughout is one
expression. -/
def collapse : Datum → Datum
  | node op args =>
    match toExprs args with
    | .ok es => expr (.node op es)
    | .error _ => node op (collapseAll args)
  | apply head args =>
    match head.toExpr, toExprs args with
    | .ok e, .ok es => expr (.apply e es)
    | _, _ => apply head.collapse (collapseAll args)
  | list items => list (collapseAll items)
  | d => d

/-- Data in which every part that is made of expressions throughout is one
expression. -/
def collapseAll : List Datum → List Datum
  | [] => []
  | d :: ds => d.collapse :: collapseAll ds

end

mutual

/-- Whether two collapsed data are built alike from equal parts. -/
def alike : Datum → Datum → Bool
  | null, null => true
  | text s, text t => s == t
  | list as, list bs => alikeAll as bs
  | expr e, expr f => decide (e = f)
  | node op as, node op' bs => op == op' && alikeAll as bs
  | apply a as, apply b bs => alike a b && alikeAll as bs
  | a, b => sameNumber a b

/-- Whether lists of collapsed data are built alike from equal parts. -/
def alikeAll : List Datum → List Datum → Bool
  | [], [] => true
  | a :: as, b :: bs => alike a b && alikeAll as bs
  | _, _ => false

end

/-! ## Equality -/

/-- Whether a datum is equal to itself. -/
def equalsItself : Datum → Bool
  | float .notANumber => false
  | _ => true

/-- Which of the data, each made apart from the others, are equal to each other,
row by row. -/
def equalities (ds : List Datum) : List (List Bool) :=
  let ds := collapseAll ds
  ds.mapIdx fun i a => ds.mapIdx fun j b => if i = j then a.equalsItself else alike a b

/-! ## Sets -/

mutual

/-- Whether there is a list in a datum. -/
def hasList : Datum → Bool
  | list _ => true
  | node _ args => anyHasList args
  | apply head args => head.hasList || anyHasList args
  | _ => false

/-- Whether there is a list in any of the data. -/
def anyHasList : List Datum → Bool
  | [] => false
  | d :: ds => d.hasList || anyHasList ds

end

/-- How many different data there are among collapsed ones.  Of those that are
alike the last is counted. -/
def countDistinct : List Datum → Nat
  | [] => 0
  | d :: ds => (if ds.any (alike d) then 0 else 1) + countDistinct ds

/-- The size of the set of the data.  Nothing with a list in it can be in a set. -/
def distinct (ds : List Datum) : Except Error Nat :=
  if anyHasList ds then .error .listInSet else .ok (countDistinct (collapseAll ds))

end Datum
end Formula
