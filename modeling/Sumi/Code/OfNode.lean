import Sumi.Analysis.Node
import Sumi.Code.Basic
import Sumi.Decimal.Shortest

namespace Sumi.Code

mutual

def ofForm : Form → Code
  | .nil => .nil
  | .bool b => .bool b
  | .int n => .int n
  | .float x => if x.isNaN || x.isInf then .special (Decimal.Shortest.write x) else .float x
  | .str s => .str s
  | .symbol n => .symbol n
  | .keyword n => .keyword n
  | .list items _ => .list (ofForms items)
  | .vector items _ => .vector (ofForms items)
  | .map items _ => .map (ofPairs items)

def ofForms : List Form → List Code
  | [] => []
  | f :: fs => ofForm f :: ofForms fs

def ofPairs : List Form → List (Code × Code)
  | k :: v :: rest => (ofForm k, ofForm v) :: ofPairs rest
  | _ => []

end

mutual

def ofNode : Node → Code
  | .const _ form => ofForm form
  | .bound _ name => .bound name
  | .var _ ns name => .var ns (munge name)
  | .define _ ns name none => .define ns name .nil
  | .define _ ns name (some init) => .define ns name (ofNode init)
  | .fn _ label self params rest body =>
      match label.filter (!·.isEmpty), self with
      | some label, some self => .recursive label self params rest (sequence (ofNodes body))
      | _, _ => .lambda params rest (sequence (ofNodes body))
  | .cond _ test yes no => .cond (ofNode test) (ofNode yes) (ofNode no)
  | .block _ body => sequence (ofNodes body)
  | .bind _ names inits body => bindAll names (ofNodes inits) (sequence (ofNodes body))
  | .assign _ ns name value => .assign ns name (ofNode value)
  | .throw _ value => .throw (ofNode value)
  | .call _ f args => .call (ofNode f) (ofNodes args)
  | .vector _ items => .vector (ofNodes items)
  | .map _ keys values => .map ((ofNodes keys).zip (ofNodes values))
  | .ns _ name requires uses => .provide name (Node.demands requires uses)

def ofNodes : List Node → List Code
  | [] => []
  | n :: ns => ofNode n :: ofNodes ns

end

end Sumi.Code
