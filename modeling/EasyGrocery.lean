import EasyGrocery.App.ListSync
import EasyGrocery.App.ListFrame
import EasyGrocery.App.SearchPage
import EasyGrocery.App.SearchResults
import EasyGrocery.App.Shell
import EasyGrocery.Wire.CompareRequest
import EasyGrocery.Wire.CompareResponse
import EasyGrocery.Wire.ItemSearch
import EasyGrocery.Wire.Comparison
import EasyGrocery.Wire.Phones
import EasyGrocery.Wire.System
import EasyGrocery.Wire.Adding
import EasyGrocery.Server.Totals
import EasyGrocery.Server.Timing
import EasyGrocery.Server.Coverage
import EasyGrocery.Server.FullMatch
import EasyGrocery.Server.Additive
import EasyGrocery.Server.Concurrent
import EasyGrocery.Server.Failures
import EasyGrocery.Server.Prototype
import EasyGrocery.Server.Search
import EasyGrocery.Server.Catalogue
import EasyGrocery.App.Devices
import EasyGrocery.Server.Capacity
import EasyGrocery.Server.Outcomes
import EasyGrocery.Server.Process
import EasyGrocery.Server.Report
import EasyGrocery.Server.Load
