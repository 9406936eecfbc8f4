import Cloudkeeper.Parsy.Basic
import Cloudkeeper.Parsy.Theorems.Basic
import Cloudkeeper.Parsy.Theorems.Halts
import Cloudkeeper.Parsy.Theorems.Raises
import Cloudkeeper.Parsy.Theorems.Fuel
import Cloudkeeper.Parsy.Theorems.Trailing
import Cloudkeeper.Query.Model
import Cloudkeeper.Query.Parser
import Cloudkeeper.Query.Theorems.Termination
import Cloudkeeper.Query.Theorems.Navigation
import Cloudkeeper.Query.Theorems.WellFormed
import Cloudkeeper.Query.Theorems.Exceptions
import Cloudkeeper.Query.Theorems.Strings
import Cloudkeeper.Query.Sentence
import Cloudkeeper.Query.Theorems.Tokens
import Cloudkeeper.Query.Theorems.Blanks
import Cloudkeeper.Query.Theorems.Values
import Cloudkeeper.Query.Theorems.Terms
import Cloudkeeper.Query.Theorems.Parts
import Cloudkeeper.Query.Theorems.RoundTrip
import Cloudkeeper.Query.Theorems.Trailing
import Cloudkeeper.Web.ContentRenderer
import Cloudkeeper.Web.Graph
import Cloudkeeper.Web.Theorems.Text
import Cloudkeeper.Web.Theorems.DotLoop
import Cloudkeeper.Web.Theorems.Dot
import Cloudkeeper.Web.Theorems.Graph
