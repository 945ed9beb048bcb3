
namespace Sumi.Machine

inductive Builtin
  | add
  | sub
  | mul
  | div
  | quot
  | rem
  | mod
  | inc
  | dec
  | greatest
  | least
  | abs
  | eq
  | notEq
  | lt
  | gt
  | le
  | ge
  | negation
  | identity
  | isNil
  | isSome
  | isTrue
  | isFalse
  | isZero
  | isPos
  | isNeg
  | isEven
  | isOdd
  | isNumber
  | isInteger
  | isString
  | isKeyword
  | isSymbol
  | isFn
  | isList
  | isVector
  | isMap
  | isColl
  | list
  | vector
  | hashMap
  | count
  | seq
  | isEmpty
  | first
  | second
  | last
  | rest
  | next
  | cons
  | conj
  | get
  | getIn
  | nth
  | assoc
  | dissoc
  | keys
  | vals
  | contains
  | merge
  | zipmap
  | concat
  | into
  | reverse
  | sort
  | sortBy
  | take
  | drop
  | range
  | repeated
  | map
  | filter
  | remove
  | reduce
  | apply
  | anyOf
  | every
  | comp
  | partially
  | constantly
  | str
  | subs
  | nameOf
  | namespaceOf
  | keyword
  | symbol
  | gensym
  | prStr
  | prn
  | print
  | println
  | atom
  | deref
  | reset
  | swap
  | exMessage
  deriving DecidableEq, Repr

namespace Builtin

def all : List Builtin :=
  [.add, .sub, .mul, .div, .quot, .rem, .mod, .inc, .dec, .greatest, .least, .abs, .eq, .notEq,
   .lt, .gt, .le, .ge, .negation, .identity, .isNil, .isSome, .isTrue, .isFalse, .isZero,
   .isPos, .isNeg, .isEven, .isOdd, .isNumber, .isInteger, .isString, .isKeyword, .isSymbol,
   .isFn, .isList, .isVector, .isMap, .isColl, .list, .vector, .hashMap, .count, .seq, .isEmpty,
   .first, .second, .last, .rest, .next, .cons, .conj, .get, .getIn, .nth, .assoc, .dissoc,
   .keys, .vals, .contains, .merge, .zipmap, .concat, .into, .reverse, .sort, .sortBy, .take,
   .drop, .range, .repeated, .map, .filter, .remove, .reduce, .apply, .anyOf, .every, .comp,
   .partially, .constantly, .str, .subs, .nameOf, .namespaceOf, .keyword, .symbol, .gensym,
   .prStr, .prn, .print, .println, .atom, .deref, .reset, .swap, .exMessage]

def spelling : Builtin → String
  | .add => "+"
  | .sub => "-"
  | .mul => "*"
  | .div => "/"
  | .quot => "quot"
  | .rem => "rem"
  | .mod => "mod"
  | .inc => "inc"
  | .dec => "dec"
  | .greatest => "max"
  | .least => "min"
  | .abs => "abs"
  | .eq => "="
  | .notEq => "not="
  | .lt => "<"
  | .gt => ">"
  | .le => "<="
  | .ge => ">="
  | .negation => "not"
  | .identity => "identity"
  | .isNil => "nil?"
  | .isSome => "some?"
  | .isTrue => "true?"
  | .isFalse => "false?"
  | .isZero => "zero?"
  | .isPos => "pos?"
  | .isNeg => "neg?"
  | .isEven => "even?"
  | .isOdd => "odd?"
  | .isNumber => "number?"
  | .isInteger => "integer?"
  | .isString => "string?"
  | .isKeyword => "keyword?"
  | .isSymbol => "symbol?"
  | .isFn => "fn?"
  | .isList => "list?"
  | .isVector => "vector?"
  | .isMap => "map?"
  | .isColl => "coll?"
  | .list => "list"
  | .vector => "vector"
  | .hashMap => "hash-map"
  | .count => "count"
  | .seq => "seq"
  | .isEmpty => "empty?"
  | .first => "first"
  | .second => "second"
  | .last => "last"
  | .rest => "rest"
  | .next => "next"
  | .cons => "cons"
  | .conj => "conj"
  | .get => "get"
  | .getIn => "get-in"
  | .nth => "nth"
  | .assoc => "assoc"
  | .dissoc => "dissoc"
  | .keys => "keys"
  | .vals => "vals"
  | .contains => "contains?"
  | .merge => "merge"
  | .zipmap => "zipmap"
  | .concat => "concat"
  | .into => "into"
  | .reverse => "reverse"
  | .sort => "sort"
  | .sortBy => "sort-by"
  | .take => "take"
  | .drop => "drop"
  | .range => "range"
  | .repeated => "repeat"
  | .map => "map"
  | .filter => "filter"
  | .remove => "remove"
  | .reduce => "reduce"
  | .apply => "apply"
  | .anyOf => "some"
  | .every => "every?"
  | .comp => "comp"
  | .partially => "partial"
  | .constantly => "constantly"
  | .str => "str"
  | .subs => "subs"
  | .nameOf => "name"
  | .namespaceOf => "namespace"
  | .keyword => "keyword"
  | .symbol => "symbol"
  | .gensym => "gensym"
  | .prStr => "pr-str"
  | .prn => "prn"
  | .print => "print"
  | .println => "println"
  | .atom => "atom"
  | .deref => "deref"
  | .reset => "reset!"
  | .swap => "swap!"
  | .exMessage => "ex-message"

end Builtin

end Sumi.Machine
