import QueryDomain.Batch

/-! A run on many domains as the runs on each of them. The domains come from two places and the
limit from four, but what is written about one domain depends on this domain, the format and the
limit alone. The options and the files are any that a run can be given. -/
namespace QueryDomain

namespace Report

variable {format : Format} {limit : Nat} {domains : List String}

end Report

namespace Batch

variable {format : Report.Format} {batch : Batch}

end Batch

namespace Options

section Collecting

variable (o : Options) (load : String → Option PatternFile) (argument environment : Option Nat)

/-- The options of a run on one domain, with the limit among its arguments. -/
def single (format : Report.Format) (limit : Nat) (domain : String) : Options :=
  ⟨[domain], none, format, some limit, none, false⟩

end Collecting

section Running

variable {o : Options} {load : String → Option PatternFile} {argument environment : Option Nat}

end Running
end Options
end QueryDomain
